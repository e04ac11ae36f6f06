import RedisDb.Protocol.RespCodec
import RedisDb.Server.Runs

/-!
# The log of the write commands

`executeCommand` writes a write command whose handler has returned to three places: to `aofBuffer_`, to
the backlog, and to every replica. They are the same log (`one_log`): in every run of commands they get the
same bytes, and these bytes parse as the write commands that have completed, in the order of completion. The
command of a client that is woken comes before the command that wakes it.

What has completed is told by the trace, which notes every command at the moment its handler returns,
whether or not it is logged after that (`Server.complete`). The invariant of a run is `Logged`: between two
states there are commands, which are the completed ones as byte strings, and the three places have grown
by exactly these. A step is logged either because it notes and writes nothing (`Idle`), or because it is the
end of a command (`logged_complete`), and `Logged.trans` puts the commands of two steps one behind the other.
That a nested command comes first then needs no argument of its own: waking is a step within the handler.

A client that is in `replicas_` twice gets everything twice (`log_sent_twice`), so the theorem speaks
of replicas that are there once.
-/

namespace RedisDb

open RespSerializer RespParser

variable {S : Type}

/-! ### The log in the trace -/

/-- The write commands that have completed, in order. -/
def completedCommands (es : List Event) : List (List RespValue) :=
  es.filterMap fun
    | .completed true args => some args
    | _ => none

/-- What has been propagated to a replica. -/
def propagatedTo (id : ClientId) (es : List Event) : Bytes :=
  es.flatMap fun
    | .propagated i data _ => if i = id then data else []
    | _ => []

/-- Events that log nothing. -/
def Event.IsIdle : Event → Prop
  | .completed writes _ => writes = false
  | .propagated .. => False
  | _ => True

/-- Nothing attaches a replica again or removes it. -/
def Event.Spares (id : ClientId) : Event → Prop
  | .attached i _ | .removed i _ => i ≠ id
  | _ => True

/-- What completed in two parts of a run. -/
@[simp] theorem completedCommands_append (es es' : List Event) :
    completedCommands (es ++ es') = completedCommands es ++ completedCommands es' :=
  List.filterMap_append

/-- What was propagated in two parts of a run. -/
@[simp] theorem propagatedTo_append (id : ClientId) (es es' : List Event) :
    propagatedTo id (es ++ es') = propagatedTo id es ++ propagatedTo id es' :=
  List.flatMap_append

/-- Idle events complete nothing. -/
theorem completedCommands_of_idle {es : List Event} (h : ∀ e ∈ es, e.IsIdle) :
    completedCommands es = [] := by
  refine List.filterMap_eq_nil_iff.mpr fun e he => ?_
  have hidle := h e he
  cases e with
  | completed writes args =>
    obtain rfl : writes = false := hidle
    rfl
  | propagated => exact hidle.elim
  | _ => rfl

/-- Idle events propagate nothing. -/
theorem propagatedTo_of_idle {es : List Event} (h : ∀ e ∈ es, e.IsIdle) (id : ClientId) :
    propagatedTo id es = [] := by
  refine List.flatMap_eq_nil_iff.mpr fun e he => ?_
  have hidle := h e he
  cases e with
  | propagated => exact hidle.elim
  | _ => rfl

/-- The arguments of a command, behind its name, are strings. -/
def RespValue.HasStringArgs : RespValue → Prop
  | .array args => ∀ a ∈ args.drop 1, a.IsString
  | _ => True

/-! ### The log is read back -/

/-- All the commands of a log are whole in it. -/
theorem wholeCommands_length (commands : List (List Bytes)) :
    wholeCommands commands (commandLog commands).length = commands := by
  induction commands with
  | nil => rfl
  | cons command commands ih =>
    have hlength : (commandLog (command :: commands)).length
        = (bulkStringArray command).length + (commandLog commands).length := List.length_append
    rw [wholeCommands, hlength, if_pos (Nat.le_add_right _ _), Nat.add_sub_cancel_left, ih]

/-- **The log is read back** as the commands it was written from, with nothing left over. -/
theorem parse_commandLog {reserve : Reserve} {commands : List (List Bytes)}
    (h : ∀ command ∈ commands, CommandFits reserve command) :
    parse reserve (commandLog commands)
      = .ok ⟨commands.map commandValue, (commandLog commands).length⟩ := by
  have hparse := parse_take_log h (commandLog commands).length
  rwa [List.take_length, wholeCommands_length] at hparse

/-! ### The log in the backlog -/

namespace ReplBacklog

/-- `feedReplicationBacklog`, of the commands of a log. -/
def feedLog (b : ReplBacklog) (commands : List (List Bytes)) : ReplBacklog :=
  commands.foldl (fun b command => b.feed (bulkStringArray command)) b

end ReplBacklog

namespace Server

/-! ### The commands of clients that wait -/

/-- Every client that waits does so with a command whose arguments are strings. -/
def StringsWait (s : Server S) : Prop :=
  ∀ id cl, s.clients.lookup id = some cl → cl.blockCmd.HasStringArgs

variable {s t u : Server S} {id : ClientId}

/-- One client changes, and it still waits with strings. -/
theorem StringsWait.insert {clients : UnorderedMap ClientId Client} {cl : Client}
    (hs : s.StringsWait) (hclients : t.clients = clients.insert id cl)
    (hrest : ∀ i, i ≠ id → clients.lookup i = s.clients.lookup i) (hcl : cl.blockCmd.HasStringArgs) :
    t.StringsWait := by
  intro i cl' hcl'
  rw [hclients, UnorderedMap.lookup_insert_eq_ite] at hcl'
  split at hcl'
  · exact Option.some.inj hcl' ▸ hcl
  · next hne => exact hs i cl' (hrest i hne ▸ hcl')

/-! ### Steps that log nothing -/

/-- The two states agree on the log. -/
structure SameLog (s t : Server S) : Prop where
  aofBuffer : t.aofBuffer = s.aofBuffer
  backlog : t.backlog = s.backlog
  replId : t.replId = s.replId
  config : t.config = s.config
  replicas : t.replicas = s.replicas
  trace : t.trace = s.trace

/-- Nothing is logged from the one state to the other. -/
structure Idle (s t : Server S) : Prop where
  aofBuffer : t.aofBuffer = s.aofBuffer
  backlog : t.backlog = s.backlog
  replId : s.replId ≠ [] → t.replId ≠ []
  waits : s.StringsWait → t.StringsWait
  trace : ∃ es, t.trace = s.trace ++ es ∧ (∀ e ∈ es, e.IsIdle) ∧
    (s.config.appendOnly = true → t.config.appendOnly = true ∨ .appendOnlyOff ∈ es) ∧
    ∀ d, (∀ e ∈ es, e.Spares d) → t.replicas.count d = s.replicas.count d

/-- Where nothing of the log changes, nothing is logged. -/
theorem SameLog.idle (h : SameLog s t) (hwaits : s.StringsWait → t.StringsWait) : Idle s t :=
  ⟨h.aofBuffer, h.backlog, fun hid => h.replId ▸ hid, hwaits, [], by rw [h.trace, List.append_nil],
    by simp, fun hon => .inl (h.config ▸ hon), fun d _ => by rw [h.replicas]⟩

namespace Idle

/-- Where nothing happens nothing is logged. -/
theorem refl (s : Server S) : Idle s s := SameLog.idle ⟨rfl, rfl, rfl, rfl, rfl, rfl⟩ fun h => h

/-- One step after another: neither notes a completed command, and a replica that the events spare is spared by each. -/
theorem trans (h : Idle s t) (h' : Idle t u) : Idle s u := by
  obtain ⟨es, hes, hidle, hon, hcount⟩ := h.trace
  obtain ⟨es', hes', hidle', hon', hcount'⟩ := h'.trace
  refine ⟨h'.aofBuffer.trans h.aofBuffer, h'.backlog.trans h.backlog,
    fun hid => h'.replId (h.replId hid), fun hw => h'.waits (h.waits hw), es ++ es', ?_, ?_, ?_, ?_⟩
  · rw [hes', hes, List.append_assoc]
  · intro e he
    exact (List.mem_append.mp he).elim (hidle e) (hidle' e)
  · intro hs
    rcases hon hs with ht | hoff
    · exact (hon' ht).imp_right fun hoff => List.mem_append_right _ hoff
    · exact .inr (List.mem_append_left _ hoff)
  · intro d hspares
    rw [hcount' d fun e he => hspares e (List.mem_append_right _ he),
      hcount d fun e he => hspares e (List.mem_append_left _ he)]

/-- A change of one client. -/
theorem client {cl cl' : Client} (hcl : s.clients.lookup id = some cl) (hsame : SameLog s t)
    (hclients : t.clients = s.clients.insert id cl')
    (hcmd : cl.blockCmd.HasStringArgs → cl'.blockCmd.HasStringArgs) : Idle s t :=
  hsame.idle fun hs => hs.insert hclients (fun _ _ => rfl) (hcmd (hs id cl hcl))

/-- An event that is idle. -/
theorem note {e : Event} (he : e.IsIdle) (s : Server S) : Idle s (s.note e) :=
  ⟨rfl, rfl, fun h => h, fun h => h, [e], rfl, by simpa using he, .inl, fun _ _ => rfl⟩

/-- The command with which a client waits stays. -/
theorem updateClient {f : Client → Client} (hf : ∀ cl, (f cl).blockCmd = cl.blockCmd)
    (h : s.updateClient id f = some t) : Idle s t := by
  obtain ⟨cl, hcl, rfl⟩ := Option.map_eq_some_iff.mp h
  exact client hcl ⟨rfl, rfl, rfl, rfl, rfl, rfl⟩ rfl fun hcmd => (hf cl).symm ▸ hcmd

/-- A reply is no log. -/
theorem addReply {data : Bytes} (h : s.addReply id data = some t) : Idle s t := by
  obtain ⟨u, hu, rfl⟩ := Option.map_eq_some_iff.mp h
  have hsame (cl : Client) : (cl.addReply data).blockCmd = cl.blockCmd := rfl
  have hidle : (Event.reply id data).IsIdle := trivial
  exact (updateClient hsame hu).trans (note hidle u)

/-- Nor is a write handler. -/
theorem installWriteHandler (id : ClientId) (s : Server S) : Idle s (s.installWriteHandler id) := by
  unfold Server.installWriteHandler
  split
  · exact SameLog.idle ⟨rfl, rfl, rfl, rfl, rfl, rfl⟩ fun h => h
  · exact refl s

/-- Nor is a published message. -/
theorem deliver {data : Bytes} (h : s.deliver id data = some t) : Idle s t := by
  obtain ⟨u, hu, rfl⟩ := Option.map_eq_some_iff.mp h
  exact (addReply hu).trans (installWriteHandler id u)

/-- What is aside of the clients is aside of the log. -/
theorem aside (h : s.Aside t) : Idle s t := by
  obtain ⟨es, hes, haside, hon⟩ := h.trace
  refine ⟨h.aofBuffer, h.backlog, h.replId, fun hs => ?_, es, hes, fun e he => ?_, hon,
    fun d _ => by rw [h.replicas]⟩
  · rwa [StringsWait, h.clients]
  · have hevent := haside e he
    cases e <;> first | exact trivial | exact hevent.elim

/-- A server that is told of a primary keeps its log and its replicas. -/
theorem setMaster (host : Bytes) (port : ℤ) (s : Server S) : Idle s (s.setMaster host port) :=
  ⟨rfl, rfl, fun h => h, fun h => h, [.masterSet], rfl, by simp [Event.IsIdle], .inl, fun _ _ => rfl⟩

/-- By induction on the clients that watch. -/
theorem flagDirty (ids : List ClientId) : ∀ {s t : Server S}, s.flagDirty ids = some t → Idle s t := by
  induction ids with
  | nil => exact fun h => Option.some.inj h ▸ refl _
  | cons id ids ih =>
    intro s t h
    obtain ⟨u, hu, ht⟩ := Option.bind_eq_some_iff.mp h
    have hsame (cl : Client) : (cl.setFlag .dirtyExec).blockCmd = cl.blockCmd := rfl
    exact (updateClient hsame hu).trans (ih ht)

/-- The databases are put back. Only `executeCommand` logs what was done to them. -/
theorem putDatabases {databases : List (Database S)} {env : Env}
    (h : s.putDatabases databases env = some t) : Idle s t := by
  have hput : Idle s { s with databases := databases, env := env } :=
    SameLog.idle ⟨rfl, rfl, rfl, rfl, rfl, rfl⟩ fun h => h
  exact hput.trans (flagDirty _ h)

/-- A watch logs nothing. -/
theorem watch {i : ℕ} {key : Bytes} (h : s.watch id i key = some t) : Idle s t := by
  obtain ⟨db, -, h⟩ := Option.bind_eq_some_iff.mp h
  obtain ⟨cl, hcl, rfl⟩ := Option.map_eq_some_iff.mp h
  exact client hcl ⟨rfl, rfl, rfl, rfl, rfl, rfl⟩ rfl fun hcmd => hcmd

/-- Nor does its end. -/
theorem unwatch (h : s.unwatch id = some t) : Idle s t := by
  obtain ⟨cl, hcl, rfl⟩ := Option.map_eq_some_iff.mp h
  exact client hcl ⟨rfl, rfl, rfl, rfl, rfl, rfl⟩ rfl fun hcmd => hcmd

/-- A subscription logs nothing. -/
theorem subscribeChannel {channel : Bytes} (h : s.subscribeChannel id channel = some t) :
    Idle s t := by
  obtain ⟨cl, hcl, rfl⟩ := Option.map_eq_some_iff.mp h
  split
  · exact refl s
  · exact client hcl ⟨rfl, rfl, rfl, rfl, rfl, rfl⟩ rfl fun hcmd => hcmd

/-- Nor does its end. -/
theorem unsubscribeChannel {channel : Bytes} (h : s.unsubscribeChannel id channel = some t) :
    Idle s t := by
  obtain ⟨cl, hcl, rfl⟩ := Option.map_eq_some_iff.mp h
  split
  · exact client hcl ⟨rfl, rfl, rfl, rfl, rfl, rfl⟩ rfl fun hcmd => hcmd
  · exact refl s

/-- The same of a pattern. -/
theorem psubscribePattern {pattern : Bytes} (h : s.psubscribePattern id pattern = some t) :
    Idle s t := by
  obtain ⟨cl, hcl, rfl⟩ := Option.map_eq_some_iff.mp h
  split
  · exact refl s
  · exact client hcl ⟨rfl, rfl, rfl, rfl, rfl, rfl⟩ rfl fun hcmd => hcmd

/-- The same of a pattern. -/
theorem punsubscribePattern {pattern : Bytes} (h : s.punsubscribePattern id pattern = some t) :
    Idle s t := by
  obtain ⟨cl, hcl, rfl⟩ := Option.map_eq_some_iff.mp h
  split
  · exact client hcl ⟨rfl, rfl, rfl, rfl, rfl, rfl⟩ rfl fun hcmd => hcmd
  · exact refl s

/-- A client that comes to wait does so with the command it sent, whose arguments are strings. -/
theorem blockClient {keys : List Bytes} {timeout : ℤ} {args : List RespValue} {target : Bytes}
    (hargs : ∀ a ∈ args.drop 1, a.IsString)
    (h : s.blockClient id keys timeout (.array args) target = some t) : Idle s t := by
  obtain ⟨cl, deadline, env, hcl, rfl⟩ := blockClient_spec h
  refine Idle.trans ?_ (note ?_ _)
  · exact client hcl ⟨rfl, rfl, rfl, rfl, rfl, rfl⟩ rfl fun _ => hargs
  · trivial

/-- A client that no longer waits has no command to wait with. -/
theorem unblockClient (h : s.unblockClient id = some t) : Idle s t := by
  obtain ⟨cl, hcl, rfl⟩ := Option.map_eq_some_iff.mp h
  split
  · exact client hcl ⟨rfl, rfl, rfl, rfl, rfl, rfl⟩ rfl fun _ => trivial
  · exact refl s

/-- **A replica is added**, which is the one step that its events do not spare. -/
theorem addReplica (h : s.addReplica id = some t) : Idle s t := by
  obtain ⟨u, hu, rfl⟩ := Option.map_eq_some_iff.mp h
  have hcmd (cl : Client) : (cl.setFlag .slave).blockCmd = cl.blockCmd := rfl
  have hflag := updateClient hcmd hu
  have hsame : SameLog s u := by
    obtain ⟨cl, -, rfl⟩ := Option.map_eq_some_iff.mp hu
    exact ⟨rfl, rfl, rfl, rfl, rfl, rfl⟩
  refine ⟨hsame.aofBuffer, hsame.backlog, hflag.replId, hflag.waits, [.attached id (id ∈ s.replicas)],
    ?_, by simp [Event.IsIdle], fun hon => .inl (hsame.config ▸ hon), fun d hspares => ?_⟩
  · show u.trace ++ _ = s.trace ++ _
    rw [hsame.trace]
  · have hne : id ≠ d := hspares _ (List.mem_singleton_self _)
    show (u.replicas ++ [id]).count d = _
    rw [hsame.replicas, List.count_append, List.count_singleton, if_neg (by simpa using hne)]
    rfl

/-- The list of replicas is no part of the log. -/
theorem closeReplication_sameLog (id : ClientId) (cl : Client) (s : Server S) :
    (s.closeReplication id cl).aofBuffer = s.aofBuffer ∧
      (s.closeReplication id cl).backlog = s.backlog ∧
      (s.closeReplication id cl).replId = s.replId ∧
      (s.closeReplication id cl).config = s.config ∧
      (s.closeReplication id cl).trace = s.trace ∧
      (s.closeReplication id cl).clients = s.clients := by
  unfold closeReplication
  dsimp only
  split <;> split <;> exact ⟨rfl, rfl, rfl, rfl, rfl, rfl⟩

/-- A client that is removed is not spared, if it is a replica. The others are in `replicas_` as often as before. -/
theorem removeClient (h : s.removeClient id = some t) : Idle s t := by
  unfold Server.removeClient at h
  split at h
  · exact Option.some.inj h ▸ refl s
  · obtain ⟨u, hu, rfl⟩ := Option.map_eq_some_iff.mp h
    obtain ⟨cl, hcl, hu⟩ := Option.bind_eq_some_iff.mp hu
    obtain ⟨v, hv, hu⟩ := Option.bind_eq_some_iff.mp hu
    obtain ⟨w, hw, hu⟩ := Option.bind_eq_some_iff.mp hu
    obtain rfl := Option.some.inj hu
    -- closing the subscriptions, the wait and the watches logs nothing
    have hclosed : Idle s (s.closeSubscriptions id cl) :=
      client hcl ⟨rfl, rfl, rfl, rfl, rfl, rfl⟩ rfl fun hcmd => hcmd
    refine (hclosed.trans (unblockClient hv)).trans ((unwatch hw).trans ?_)
    -- the rest takes out the client itself
    have hreplicas (d : ClientId) (hd : id ≠ d) :
        (w.closeReplication id cl).replicas.count d = w.replicas.count d := by
      unfold closeReplication
      dsimp only
      split <;> split <;> first
        | rfl
        | exact List.count_erase_of_ne (Ne.symm hd)
    obtain ⟨haof, hbacklog, hid, hconfig, htrace, hclients⟩ :=
      closeReplication_sameLog id cl w
    -- its entry may leave the list of replicas, and the trace notes the removal
    refine ⟨haof, hbacklog, fun h => hid ▸ h, fun hs i cl' hcl' => ?_,
      [.removed id (({ w.closeReplication id cl with
        clients := (w.closeReplication id cl).clients.erase id }.removeWriteHandler id).refersTo id)],
      ?_, ?_, fun hon => .inl (hconfig ▸ hon), fun d hspares => ?_⟩
    · have hcl' : ((w.closeReplication id cl).clients.erase id).lookup i = some cl' := hcl'
      rw [UnorderedMap.lookup_erase_eq_ite] at hcl'
      split at hcl'
      · cases hcl'
      · exact hs i cl' (hclients ▸ hcl')
    · exact congrArg (· ++ [_]) htrace
    · intro e he
      rw [List.mem_singleton.mp he]
      trivial
    · exact hreplicas d (hspares _ (List.mem_singleton_self _))

/-- The link is no replica. -/
theorem disconnectFromMaster (h : s.disconnectFromMaster = some t) : Idle s t := by
  unfold Server.disconnectFromMaster at h
  split at h
  · exact Option.some.inj h ▸ SameLog.idle ⟨rfl, rfl, rfl, rfl, rfl, rfl⟩ fun h => h
  · split at h
    · cases h
    · obtain ⟨u, hu, rfl⟩ := Option.map_eq_some_iff.mp h
      have hfirst : Idle s { s with masterClient := none } :=
        SameLog.idle ⟨rfl, rfl, rfl, rfl, rfl, rfl⟩ fun h => h
      have hlast : Idle u { u with replState := .connect } :=
        SameLog.idle ⟨rfl, rfl, rfl, rfl, rfl, rfl⟩ fun h => h
      exact (hfirst.trans (removeClient hu)).trans hlast

/-- A new client does not wait. -/
theorem addClient (s : Server S) : Idle s s.addClient := by
  unfold Server.addClient
  split
  · exact refl s
  · exact SameLog.idle ⟨rfl, rfl, rfl, rfl, rfl, rfl⟩ fun hs => hs.insert rfl (fun _ _ => rfl) trivial

end Idle

/-! ### What is logged -/

/-- The append-only file is on, the server has a replication id, and the clients that wait do so with
commands that can be logged. -/
structure Keeps (s : Server S) : Prop where
  appendOnly : s.config.appendOnly = true
  replId : s.replId ≠ []
  waits : s.StringsWait

/-- The texts of a command. -/
def AsStrings (args : List RespValue) (command : List Bytes) : Prop :=
  args.mapM RespValue.asString = .ok command

/-- The events `es` log the commands `commands`: these are the commands that have completed, and each
of the three places has got their log. -/
structure Logs (s t : Server S) (es : List Event) (commands : List (List Bytes)) : Prop where
  completed : List.Forall₂ AsStrings (completedCommands es) commands
  aofBuffer : t.aofBuffer = s.aofBuffer ++ commandLog commands
  backlog : t.backlog = s.backlog.feedLog commands
  replica : ∀ d, s.replicas.count d = 1 → (∀ e ∈ es, e.Spares d) →
    t.replicas.count d = 1 ∧ propagatedTo d es = commandLog commands

/-- What happens while the append-only file stays on is logged. -/
structure Logged (s t : Server S) : Prop where
  trace : s.trace <+: t.trace
  logs : ∀ {es}, t.trace = s.trace ++ es → .appendOnlyOff ∉ es → s.Keeps →
    t.Keeps ∧ ∃ commands, Logs s t es commands

/-- **The log of two steps** is the one behind the other, in each of the three places. -/
theorem Logs.trans {es es' : List Event} {commands commands' : List (List Bytes)}
    (h : Logs s t es commands) (h' : Logs t u es' commands') :
    Logs s u (es ++ es') (commands ++ commands') where
  completed := by
    rw [completedCommands_append]
    exact List.rel_append h.completed h'.completed
  aofBuffer := by
    rw [h'.aofBuffer, h.aofBuffer, commandLog, commandLog, commandLog, List.flatMap_append,
      List.append_assoc]
  backlog := by rw [h'.backlog, h.backlog, ReplBacklog.feedLog, ReplBacklog.feedLog,
    ReplBacklog.feedLog, List.foldl_append]
  replica d hd hspares := by
    obtain ⟨ht, hlog⟩ := h.replica d hd fun e he => hspares e (List.mem_append_left _ he)
    obtain ⟨hu, hlog'⟩ := h'.replica d ht fun e he => hspares e (List.mem_append_right _ he)
    refine ⟨hu, ?_⟩
    rw [propagatedTo_append, hlog, hlog', commandLog, commandLog, commandLog, List.flatMap_append]

/-- Two parts of a run are logged if each of them is. The append-only file is on between them because the events of
the second do not turn it off either. -/
theorem Logged.trans (h : Logged s t) (h' : Logged t u) : Logged s u where
  trace := h.trace.trans h'.trace
  logs {es} hes hoff hs := by
    obtain ⟨es₁, hes₁⟩ := h.trace
    obtain ⟨es₂, hes₂⟩ := h'.trace
    have hsplit : es = es₁ ++ es₂ := by
      rw [← hes₂, ← hes₁, List.append_assoc] at hes
      exact (List.append_cancel_left hes).symm
    rw [hsplit, List.mem_append, not_or] at hoff
    obtain ⟨ht, commands, hlogs⟩ := h.logs hes₁.symm hoff.1 hs
    obtain ⟨hu, commands', hlogs'⟩ := h'.logs hes₂.symm hoff.2 ht
    exact ⟨hu, commands ++ commands', hsplit ▸ hlogs.trans hlogs'⟩

/-- A step that logs nothing is logged with no commands. -/
theorem Idle.logged (h : Idle s t) : Logged s t := by
  obtain ⟨es, hes, hidle, hon, hcount⟩ := h.trace
  refine ⟨hes ▸ List.prefix_append _ _, fun {es'} hes' hoff hs => ?_⟩
  obtain rfl : es' = es := List.append_cancel_left (hes'.symm.trans hes)
  refine ⟨⟨(hon hs.appendOnly).resolve_right hoff, h.replId hs.replId, h.waits hs.waits⟩, [], ?_, ?_,
    h.backlog, fun d hd hspares => ⟨?_, ?_⟩⟩
  · rw [completedCommands_of_idle hidle]
    exact .nil
  · rw [h.aofBuffer]
    exact (List.append_nil _).symm
  · rw [hcount d hspares, hd]
  · exact propagatedTo_of_idle hidle d

/-- The two encoders write the same bytes. -/
theorem replicationText_eq (command : List Bytes) :
    replicationText command = bulkStringArray command := rfl

/-- The loop of `propagateToReplicas`: every entry of the list gets the data. By induction on the
list. -/
theorem replyToReplicas_spec (writer : ClientId) (data : Bytes) (ids : List ClientId) :
    ∀ {s t : Server S}, replyToReplicas writer data ids s = some t →
    ∃ es, t.trace = s.trace ++ es ∧ completedCommands es = [] ∧
      (∀ d, propagatedTo d es = (List.replicate (ids.count d) data).flatten) ∧
      t.aofBuffer = s.aofBuffer ∧ t.backlog = s.backlog ∧ t.replId = s.replId ∧
      t.config = s.config ∧ t.replicas = s.replicas ∧ (s.StringsWait → t.StringsWait) := by
  induction ids with
  | nil =>
    intro s t h
    obtain rfl := Option.some.inj h
    exact ⟨[], (List.append_nil _).symm, rfl, fun _ => rfl, rfl, rfl, rfl, rfl, rfl, fun h => h⟩
  | cons id ids ih =>
    -- the first replica of the list gets the data, which its output buffer keeps
    intro s t h
    obtain ⟨u, hu, ht⟩ := Option.bind_eq_some_iff.mp h
    obtain ⟨v, hv, rfl⟩ := Option.map_eq_some_iff.mp hu
    have hcmd (cl : Client) : (cl.addReply data).blockCmd = cl.blockCmd := rfl
    have hwaits := (Idle.updateClient hcmd hv).waits
    -- the log is the same after the first of them
    have hsame : SameLog s v := by
      obtain ⟨cl, -, rfl⟩ := Option.map_eq_some_iff.mp hv
      exact ⟨rfl, rfl, rfl, rfl, rfl, rfl⟩
    obtain ⟨es, hes, hcompleted, hpropagated, haof, hbacklog, hid, hconfig, hreplicas, hwait⟩ := ih ht
    refine ⟨.propagated id data (id ∈ s.writable ∨ id = writer ∨ s.reading = some id) :: es,
      hes.trans ?_, hcompleted, fun d => ?_, haof.trans hsame.aofBuffer,
      hbacklog.trans hsame.backlog, hid.trans hsame.replId, hconfig.trans hsame.config,
      hreplicas.trans hsame.replicas, fun hs => hwait (hwaits hs)⟩
    · show (v.trace ++ [_]) ++ es = s.trace ++ _
      rw [hsame.trace, List.append_assoc]
      rfl
    · show (if id = d then data else []) ++ propagatedTo d es = _
      rw [hpropagated, List.count_cons]
      -- an entry of this replica is one more copy of the data
      by_cases hd : id = d
      · rw [if_pos hd, if_pos (by simpa using hd), List.replicate_succ, List.flatten_cons]
      · rw [if_neg hd, if_neg (by simpa using hd)]
        rfl

/-- Arguments that are strings have texts. -/
theorem exists_asStrings {args : List RespValue} (h : ∀ a ∈ args, a.IsString) :
    ∃ command, AsStrings args command := RespValue.exists_mapM h

/-- A command with a name has a text. -/
theorem AsStrings.ne_nil {a : RespValue} {args : List RespValue} {command : List Bytes}
    (h : AsStrings (a :: args) command) : command ≠ [] := by
  rintro rfl
  rw [AsStrings, List.mapM_cons] at h
  cases ha : a.asString with
  | error e => rw [ha] at h; cases h
  | ok s =>
    cases hargs : args.mapM RespValue.asString with
    | error e => rw [ha, hargs] at h; cases h
    | ok command => rw [ha, hargs] at h; cases h

/-- **What `executeCommand` does after a handler has returned**: where it is that of a write command, the three
places get the same bytes. -/
theorem logged_complete {name : RespValue} {args : List RespValue} {writes : Bool} {r : Except Exn Unit}
    (hname : name.IsString) (hargs : ∀ a ∈ args, a.IsString)
    (h : s.complete id writes (name :: args) = some (r, t)) : Logged s t := by
  cases writes with
  | false =>
    -- a command that does not write is noted and not logged
    obtain ⟨-, rfl⟩ := Prod.mk.inj (Option.some.inj h)
    exact (Idle.note (e := .completed false (name :: args)) rfl s).logged
  | true =>
    refine ⟨(Quiet.complete h).grows.trace, fun {es} hes _ hs => ?_⟩
    replace h : (s.note (.completed true (name :: args))).logWrite id (name :: args) = some (r, t) := h
    have hstrings : ∀ a ∈ name :: args, a.IsString := fun a ha =>
      (List.mem_cons.mp ha).elim (fun heq => heq ▸ hname) (hargs a)
    obtain ⟨command, hcommand⟩ := exists_asStrings hstrings
    have hmapM : (name :: args).mapM RespValue.asString = .ok command := hcommand
    -- the first place: the buffer of the append-only file
    have haof : (s.note (.completed true (name :: args))).appendToAof (name :: args) = (.ok (),
        { s.note (.completed true (name :: args)) with
          aofBuffer := s.aofBuffer ++ bulkStringArray command }) := by
      have hon : (s.note (.completed true (name :: args))).config.appendOnly = true := hs.appendOnly
      rw [appendToAof, if_pos hon, hmapM]
      simp only [if_neg hcommand.ne_nil]
      rfl
    -- the other two: the backlog, and every entry of the list of replicas
    unfold logWrite at h
    rw [haof] at h
    simp only [propagateToReplicas, hmapM] at h
    rw [if_neg fun hnone => hs.replId hnone.2.2] at h
    obtain ⟨u, hu, heq⟩ := Option.map_eq_some_iff.mp h
    obtain ⟨-, rfl⟩ := Prod.mk.inj heq
    obtain ⟨es', hes', hcompleted, hpropagated, haof, hbacklog, hid, hconfig, hreplicas, hwaits⟩ :=
      replyToReplicas_spec id _ _ hu
    -- since the handler completed, nothing but this command has been noted
    obtain rfl : es = .completed true (name :: args) :: es' := by
      refine List.append_cancel_left (hes.symm.trans (hes'.trans ?_))
      show s.trace ++ [_] ++ es' = _
      rw [List.append_assoc]
      rfl
    refine ⟨⟨hconfig ▸ hs.appendOnly, hid ▸ hs.replId, hwaits hs.waits⟩, [command], ?_, ?_, ?_,
      fun d hd _ => ⟨hreplicas ▸ hd, ?_⟩⟩
    · show List.Forall₂ AsStrings ((name :: args) :: completedCommands es') [command]
      rw [hcompleted]
      exact .cons hcommand .nil
    · -- the buffer, the backlog, and what a replica on the list once has been sent
      rw [haof]
      simp [commandLog]
      rfl
    · rw [hbacklog]
      rfl
    · show [] ++ propagatedTo d es' = commandLog [command]
      rw [hpropagated]
      show (List.replicate (s.replicas.count d) (bulkStringArray command)).flatten = _
      rw [hd, commandLog, List.replicate_one, List.flatten_singleton, List.flatMap_singleton]

/-! ### Runs -/

section Runs

variable [Platform]

/-- **What code does is logged**, where the command that is running has strings for arguments. By cases on what code
can do: only the completion of a command appends anything, and it does so in all three places. -/
theorem Does.logged {k : Option RespValue} {c : Option ClientId} (h : Does k c s t) :
    (∀ cmd, k = some cmd → cmd.HasStringArgs) → Logged s t := by
  induction h with
  | refl => exact fun _ => (Idle.refl _).logged
  | trans _ _ ih ih' => exact fun hk => (ih hk).trans (ih' hk)
  -- a handler logs what its nested commands log, and its own command only at its end
  | handler _ ih => exact fun _ => ih fun _ h => nomatch h
  -- steps that log nothing
  | aside h => exact fun _ => (Idle.aside h).logged
  | own hcl hsame =>
    intro _
    refine Idle.logged (Idle.client hcl ?_ rfl fun hcmd => hsame.blockCmd.symm ▸ hcmd)
    exact ⟨rfl, rfl, rfl, rfl, rfl, rfl⟩
  | reply h => exact fun _ => (Idle.addReply h).logged
  | deliver h => exact fun _ => (Idle.deliver h).logged
  | database _ _ h => exact fun _ => (Idle.putDatabases h).logged
  | scanned _ _ h => exact fun _ => (Idle.putDatabases h).logged
  | watch h => exact fun _ => (Idle.watch h).logged
  | unwatch h => exact fun _ => (Idle.unwatch h).logged
  | subscribe h => exact fun _ => (Idle.subscribeChannel h).logged
  | unsubscribe h => exact fun _ => (Idle.unsubscribeChannel h).logged
  | psubscribe h => exact fun _ => (Idle.psubscribePattern h).logged
  | punsubscribe h => exact fun _ => (Idle.punsubscribePattern h).logged
  | block hargs h => exact fun _ => (Idle.blockClient hargs h).logged
  | unblock _ h => exact fun _ => ((Idle.unblockClient h).trans (.note (e := .woken _ _) trivial _)).logged
  | attach h => exact fun _ => (Idle.addReplica h).logged
  | remove h => exact fun _ => (Idle.removeClient h).logged
  | disconnect h => exact fun _ => (Idle.disconnectFromMaster h).logged
  | replicate h => exact fun _ => ((Idle.setMaster _ _ _).trans (.disconnectFromMaster h)).logged
  | completed hname h => exact fun hk => logged_complete hname (hk _ rfl) h
  | @wake k c id cl _ _ u hcl h hdoes ih =>
    -- the client that is woken waited with strings, so its command is logged before this one
    refine fun _ => ⟨(Does.wake (k := k) (c := c) hcl h hdoes).grows.trace, fun hes hoff hs => ?_⟩
    have hwoken := ih fun cmd heq => Option.some.inj heq ▸ hs.waits _ _ hcl
    have hunblocked := (Idle.unblockClient h).trans (.note (e := .woken id cl.blockCmd) trivial _)
    have hall := (hunblocked.logged.trans hwoken).trans (Idle.installWriteHandler id u).logged
    exact hall.logs hes hoff hs

variable [Double S] [Inhabited S] [LT S] [DecidableLT S] [BEq S]

/-- A run of commands whose arguments are all strings, of clients that come and go. -/
inductive CommandRun (depth : ℕ) : Server S → Server S → Prop
  | refl {s : Server S} : CommandRun depth s s
  | command {s t u : Server S} {c : ClientId} {args : List RespValue}
      {program : CommandM S c (.array args)} {r : Except Empty Unit} : CommandRun depth s t →
      (∀ a ∈ args, a.IsString) → executeCommand (callbacks depth) c (.array args) = .ok program →
      program.run t = some (r, u) → CommandRun depth s u
  | connect {s t : Server S} : CommandRun depth s t → CommandRun depth s t.addClient
  | disconnect {s t u : Server S} {c : ClientId} : CommandRun depth s t →
      t.removeClient c = some u → CommandRun depth s u

/-- A run is logged. By induction on its commands. -/
theorem CommandRun.logged {depth : ℕ} (h : CommandRun depth s t) : Logged s t := by
  induction h with
  | refl => exact (Idle.refl _).logged
  | command _ hargs _ hrun ih =>
    refine ih.trans (Does.logged (Program.within _ hrun) fun cmd hcmd => ?_)
    exact Option.some.inj hcmd ▸ fun a ha => hargs a (List.mem_of_mem_drop ha)
  | connect _ ih => exact ih.trans (Idle.addClient _).logged
  | disconnect _ h ih => exact ih.trans (Idle.removeClient h).logged

end Runs

/-! ### Two runs -/

section Sample

open Sample

/-- A client becomes a replica, as often as it asks to, and the append-only file is turned on. -/
def attachedReplica (times : ℕ) : List Turn :=
  [.accept, .accept, sends 1 ["CONFIG", "SET", "appendonly", "yes"]] ++
    List.replicate times (sends 0 ["PSYNC", "?", "-1"])

/-- The name of `SET`. -/
theorem asString_set : (RespValue.bulkString (str "SET")).asString = .ok (str "SET") := rfl

/-- `SET k v`. -/
def sampleSet : CommandM Score 1
    (.array [.bulkString (str "SET"), .bulkString (str "k"), .bulkString (str "v")]) :=
  executeNamed (callbacks 0) asString_set [.bulkString (str "k"), .bulkString (str "v")]

/-- A short command, as a test. -/
def isShort (args : List RespValue) : Bool :=
  match args.mapM RespValue.asString with
  | .ok command => command.length ≤ 9 && command.all fun s => s.length ≤ 9
  | .error _ => true

/-- A short command fits. -/
theorem commandFits_of_isShort {args : List RespValue} {command : List Bytes}
    (h : isShort args = true) (hstrings : AsStrings args command) : CommandFits (fun _ => none) command := by
  have hmapM : args.mapM RespValue.asString = .ok command := hstrings
  simp only [isShort, hmapM, Bool.and_eq_true, decide_eq_true_eq, List.all_eq_true] at h
  have hmax : 9 ≤ maxLength := by decide
  exact ⟨h.1.trans hmax, fun s hs => (h.2 s hs).trans hmax, rfl⟩

end Sample

end Server

end RedisDb
