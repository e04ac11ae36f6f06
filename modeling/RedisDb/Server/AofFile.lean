import RedisDb.Server.CommandLog

/-!
# When the log of the write commands reaches the file

`executeCommand` puts a command that has completed into `aofBuffer_`, and `serverCron` writes the buffer to the file.
`Aof` is this log by itself: what is in the buffer, what is in the file, and the time of the last flush. It has two
steps, a command that is logged and a tick of the timer, and what is in the file after any steps is settled there,
without a server: buffer and file together are always the log (`Aof.run_log`), and a tick that is due leaves nothing
in the buffer (`Aof.buffer_tick`).

The server follows this log, whatever the commands do (`AofRun.follows`). Code on behalf of clients only appends to
the buffer (`Does.appends`, by one case for each thing that code does), and of the timer the part before the flush and
the part after it do not touch the log at all (`Rests`), so that a call of `serverCron` is one tick. The handlers are
allowed anything between these: the invariant `Shows` relates the two states and speaks of the log alone.

The timer writes under the policy `everysec` alone, and nothing else writes at all. Under this policy every command is
in the file after a tick that comes a second after the last flush; under `always` and under `no` none ever is
(`fsync_reaches_file_iff`, `always_writes_nothing`). What has completed is taken from the trace and not from the log,
so a command that is not logged is one that is not in the file.
-/

namespace RedisDb

open RespSerializer RespParser

variable {S : Type}

/-! ### The log by itself -/

/-- What `executeCommand` puts into `aofBuffer_` for a command: nothing, where an argument is no
string. -/
def logEntry (args : List RespValue) : Bytes :=
  match args.mapM RespValue.asString with
  | .ok command => bulkStringArray command
  | .error _ => []

/-- The log of some commands. -/
def logText (completed : List (List RespValue)) : Bytes := completed.flatMap logEntry

/-- What happens to the log of the write commands. -/
inductive AofStep where
  /-- A write command has completed. -/
  | wrote (args : List RespValue)
  /-- The timer, which reads the clock. -/
  | tick (now : ℤ)

/-- The commands that have completed. -/
def AofStep.writes (steps : List AofStep) : List (List RespValue) :=
  steps.filterMap fun
    | .wrote args => some args
    | .tick _ => none

/-- The log of the write commands, between the buffer and the file. -/
structure Aof where
  buffer : Bytes
  file : Bytes
  /-- The time of the last flush, in milliseconds. -/
  flushedAt : ℤ

namespace Aof

/-- One step, under a policy. The timer compares seconds. -/
def step (policy : Bytes) (a : Aof) : AofStep → Aof
  | .wrote args => { a with buffer := a.buffer ++ logEntry args }
  | .tick now =>
    if policy = str "everysec" ∧ a.flushedAt / 1000 < now / 1000 then
      { buffer := [], file := a.file ++ a.buffer, flushedAt := now }
    else a

/-- Steps one after another. -/
def run (policy : Bytes) (a : Aof) (steps : List AofStep) : Aof := steps.foldl (step policy) a

variable {policy : Bytes} {a : Aof} {steps : List AofStep} {now : ℤ}

/-- The steps of two runs. -/
theorem run_append (steps' : List AofStep) :
    a.run policy (steps ++ steps') = (a.run policy steps).run policy steps' := List.foldl_append

/-- Commands that are logged come one behind the other. By induction on the commands. -/
theorem run_wrote (completed : List (List RespValue)) : ∀ a : Aof,
    a.run policy (completed.map .wrote) = { a with buffer := a.buffer ++ logText completed } := by
  induction completed with
  | nil =>
    intro a
    rw [logText, List.flatMap_nil, List.append_nil]
    rfl
  | cons args completed ih =>
    intro a
    have hassoc : a.buffer ++ logEntry args ++ logText completed
        = a.buffer ++ logText (args :: completed) := List.append_assoc ..
    exact (ih _).trans (congrArg (Aof.mk · a.file a.flushedAt) hassoc)

end Aof

namespace Server

/-- The two states agree on the file, and on when and by what policy it is written. -/
structure SameFile (s t : Server S) : Prop where
  aofStream : t.aofStream = s.aofStream
  lastAofFsyncTime : t.lastAofFsyncTime = s.lastAofFsyncTime
  appendFsync : t.config.appendFsync = s.config.appendFsync

section SameFile

variable {s t u : Server S} {id : ClientId}

namespace SameFile

/-- Where nothing happens. -/
theorem refl (s : Server S) : SameFile s s := ⟨rfl, rfl, rfl⟩

/-- One step after another. -/
theorem trans (h : SameFile s t) (h' : SameFile t u) : SameFile s u :=
  ⟨h'.aofStream.trans h.aofStream, h'.lastAofFsyncTime.trans h.lastAofFsyncTime,
    h'.appendFsync.trans h.appendFsync⟩

/-- A client has no part in the file. -/
theorem updateClient {f : Client → Client} (h : s.updateClient id f = some t) : SameFile s t := by
  obtain ⟨cl, -, rfl⟩ := Option.map_eq_some_iff.mp h
  exact ⟨rfl, rfl, rfl⟩

/-- Nor has a reply. -/
theorem addReply {data : Bytes} (h : s.addReply id data = some t) : SameFile s t := by
  obtain ⟨u, hu, rfl⟩ := Option.map_eq_some_iff.mp h
  exact (updateClient hu).trans ⟨rfl, rfl, rfl⟩

/-- The write handler is one of a socket. -/
theorem installWriteHandler (id : ClientId) (s : Server S) :
    SameFile s (s.installWriteHandler id) := by
  unfold Server.installWriteHandler
  split <;> exact ⟨rfl, rfl, rfl⟩

/-- By induction on the clients that are flagged. -/
theorem flagDirty (ids : List ClientId) : ∀ {s t : Server S}, s.flagDirty ids = some t →
    SameFile s t := by
  induction ids with
  | nil => exact fun h => Option.some.inj h ▸ refl _
  | cons id ids ih =>
    intro s t h
    obtain ⟨u, hu, ht⟩ := Option.bind_eq_some_iff.mp h
    exact (updateClient hu).trans (ih ht)

/-- The databases have no part in the file. -/
theorem putDatabases {databases : List (Database S)} {env : Env}
    (h : s.putDatabases databases env = some t) : SameFile s t := by
  have hput : SameFile s { s with databases := databases, env := env } := ⟨rfl, rfl, rfl⟩
  exact hput.trans (flagDirty _ h)

/-- A client that is woken has no part in it yet. -/
theorem unblockClient (h : s.unblockClient id = some t) : SameFile s t := by
  obtain ⟨cl, -, rfl⟩ := Option.map_eq_some_iff.mp h
  split <;> exact ⟨rfl, rfl, rfl⟩

/-- Nor has the end of a watch. -/
theorem unwatch (h : s.unwatch id = some t) : SameFile s t := by
  obtain ⟨cl, -, rfl⟩ := Option.map_eq_some_iff.mp h
  exact ⟨rfl, rfl, rfl⟩

/-- What a client has logged stays when it goes. -/
theorem removeClient (h : s.removeClient id = some t) : SameFile s t := by
  unfold Server.removeClient at h
  split at h
  · exact Option.some.inj h ▸ refl s
  · obtain ⟨u, hu, rfl⟩ := Option.map_eq_some_iff.mp h
    obtain ⟨cl, -, hu⟩ := Option.bind_eq_some_iff.mp hu
    obtain ⟨v, hv, hu⟩ := Option.bind_eq_some_iff.mp hu
    obtain ⟨w, hw, hu⟩ := Option.bind_eq_some_iff.mp hu
    obtain rfl := Option.some.inj hu
    have hclosed : SameFile s (s.closeSubscriptions id cl) := ⟨rfl, rfl, rfl⟩
    refine (hclosed.trans (unblockClient hv)).trans ((unwatch hw).trans ?_)
    unfold closeReplication
    dsimp only
    split <;> split <;> exact ⟨rfl, rfl, rfl⟩

/-- So it does when the link goes. -/
theorem disconnectFromMaster (h : s.disconnectFromMaster = some t) : SameFile s t := by
  unfold Server.disconnectFromMaster at h
  split at h
  · exact Option.some.inj h ▸ ⟨rfl, rfl, rfl⟩
  · split at h
    · cases h
    · obtain ⟨u, hu, rfl⟩ := Option.map_eq_some_iff.mp h
      have hsettled : SameFile s { s with masterClient := none } := ⟨rfl, rfl, rfl⟩
      exact (hsettled.trans (removeClient hu)).trans ⟨rfl, rfl, rfl⟩

/-- What is logged goes to the buffer, the backlog and the replicas. -/
theorem complete {writes : Bool} {cmd : List RespValue} {r : Except Exn Unit}
    (h : s.complete id writes cmd = some (r, t)) : SameFile s t :=
  complete_keeps (I := SameFile s) ⟨rfl, rfl, rfl⟩ (fun _ => logWrite_keeps (fun _ hs => hs.trans ⟨rfl, rfl, rfl⟩)
    (fun _ _ hu => hu.trans ⟨rfl, rfl, rfl⟩) fun _ _ hv hu => (hu.trans (updateClient hv)).trans ⟨rfl, rfl, rfl⟩) h

end SameFile

/-- The file stays as it is, and while the append-only file is on, the buffer gets the log of the
commands that have completed. -/
structure Appends (s t : Server S) : Prop where
  file : SameFile s t
  trace : s.trace <+: t.trace
  buffer : ∀ {es}, t.trace = s.trace ++ es → .appendOnlyOff ∉ es → s.config.appendOnly = true →
    t.config.appendOnly = true ∧ t.aofBuffer = s.aofBuffer ++ logText (completedCommands es)

namespace Appends

/-- A step that logs nothing appends nothing. -/
theorem of_idle (hfile : SameFile s t) (h : Idle s t) : Appends s t := by
  obtain ⟨es, hes, hidle, hon, -⟩ := h.trace
  refine ⟨hfile, hes ▸ List.prefix_append _ _, fun {es'} hes' hoff hs => ?_⟩
  obtain rfl : es' = es := List.append_cancel_left (hes'.symm.trans hes)
  refine ⟨(hon hs).resolve_right hoff, ?_⟩
  rw [completedCommands_of_idle hidle, h.aofBuffer]
  exact (List.append_nil _).symm

/-- Where nothing happens. -/
theorem refl (s : Server S) : Appends s s := of_idle (.refl s) (.refl s)

/-- What two steps append is the one log behind the other. -/
theorem trans (h : Appends s t) (h' : Appends t u) : Appends s u := by
  refine ⟨h.file.trans h'.file, h.trace.trans h'.trace, fun {es} hes hoff hs => ?_⟩
  obtain ⟨es₁, hes₁⟩ := h.trace
  obtain ⟨es₂, hes₂⟩ := h'.trace
  have hsplit : es = es₁ ++ es₂ := by
    rw [← hes₂, ← hes₁, List.append_assoc] at hes
    exact (List.append_cancel_left hes).symm
  rw [hsplit, List.mem_append, not_or] at hoff
  obtain ⟨ht, hbuffer⟩ := h.buffer hes₁.symm hoff.1 hs
  obtain ⟨hu, hbuffer'⟩ := h'.buffer hes₂.symm hoff.2 ht
  refine ⟨hu, ?_⟩
  rw [hbuffer', hbuffer, hsplit, completedCommands_append, logText, logText, logText,
    List.flatMap_append, List.append_assoc]

/-- What `executeCommand` does after the handler of a write command has returned. -/
theorem wrote {name : RespValue} {args : List RespValue} {r : Except Exn Unit}
    (h : s.complete id true (name :: args) = some (r, t)) : Appends s t := by
  obtain ⟨events, hevents, -⟩ := (Quiet.complete h).trace
  refine ⟨.complete h, hevents ▸ List.prefix_append _ _, fun {es} hes _ hs => ?_⟩
  have hon : (s.note (.completed true (name :: args))).config.appendOnly = true := hs
  -- the trace notes the command before anything can fail
  have hnoted {u : Server S} (htrace : u.trace = s.trace ++ es) {es' : List Event}
      (hu : u.trace = (s.note (.completed true (name :: args))).trace ++ es') :
      es = .completed true (name :: args) :: es' := by
    refine List.append_cancel_left (htrace.symm.trans (hu.trans ?_))
    show s.trace ++ [_] ++ es' = _
    rw [List.append_assoc]
    rfl
  -- so what the handlers completed since is this one command, and the text wanted is its entry
  have hlogText {es' : List Event} (hes' : es = .completed true (name :: args) :: es')
      (hidle : completedCommands es' = []) :
      logText (completedCommands es) = logEntry (name :: args) := by
    rw [hes']
    show logText ((name :: args) :: completedCommands es') = _
    rw [hidle, logText, List.flatMap_singleton]
  replace h : (s.note (.completed true (name :: args))).logWrite id (name :: args) = some (r, t) := h
  unfold Server.logWrite appendToAof at h
  rw [if_pos hon] at h
  -- an argument that is no string ends the logging with an exception, before anything is written
  cases hcommand : (name :: args).mapM RespValue.asString with
  | error e =>
    have hentry : logEntry (name :: args) = [] := by rw [logEntry, hcommand]
    rw [hcommand] at h
    obtain ⟨-, rfl⟩ := Prod.mk.inj (Option.some.inj h)
    rw [hlogText (hnoted hes (List.append_nil _).symm) rfl, hentry]
    exact ⟨hs, (List.append_nil _).symm⟩
  | ok command =>
    have hentry : logEntry (name :: args) = bulkStringArray command := by rw [logEntry, hcommand]
    -- the command is written to the buffer; what follows may propagate it to the replicas
    have hne : command ≠ [] := AsStrings.ne_nil hcommand
    rw [hcommand] at h
    simp only [if_neg hne, propagateToReplicas, hcommand] at h
    -- a server that replicates nothing is done here
    split at h
    · obtain ⟨-, rfl⟩ := Prod.mk.inj (Option.some.inj h)
      rw [hlogText (hnoted hes (List.append_nil _).symm) rfl, hentry]
      exact ⟨hs, rfl⟩
    · -- the replies to the replicas complete nothing and leave the buffer alone
      obtain ⟨u, hu, heq⟩ := Option.map_eq_some_iff.mp h
      obtain ⟨-, rfl⟩ := Prod.mk.inj heq
      obtain ⟨es', hes', hidle, -, haof, -, -, hconfig, -⟩ := replyToReplicas_spec id _ _ hu
      rw [hlogText (hnoted hes hes') hidle, hentry, hconfig, haof]
      exact ⟨hs, rfl⟩

/-- What `executeCommand` does after any handler has returned. -/
theorem complete {name : RespValue} {args : List RespValue} {writes : Bool} {r : Except Exn Unit}
    (h : s.complete id writes (name :: args) = some (r, t)) : Appends s t := by
  cases writes with
  | true => exact wrote h
  | false =>
    obtain ⟨-, rfl⟩ := Prod.mk.inj (Option.some.inj h)
    exact of_idle ⟨rfl, rfl, rfl⟩ (.note (e := .completed false (name :: args)) rfl s)

end Appends

/-- **Code only appends to the buffer**, and only what `executeCommand` logs. -/
theorem Does.appends [Platform] {k : Option RespValue} {c : Option ClientId} (h : Does k c s t) :
    Appends s t := by
  induction h with
  | refl => exact .refl _
  | trans _ _ ih ih' => exact ih.trans ih'
  | handler _ ih => exact ih
  -- steps that touch neither the file nor the list of what has been completed
  | aside h => exact .of_idle ⟨h.aofStream, h.lastAofFsyncTime, h.appendFsync⟩ (.aside h)
  | own hcl hsame =>
    refine .of_idle ⟨rfl, rfl, rfl⟩ (Idle.client hcl ?_ rfl fun hcmd => hsame.blockCmd.symm ▸ hcmd)
    exact ⟨rfl, rfl, rfl, rfl, rfl, rfl⟩
  | reply h => exact .of_idle (.addReply h) (.addReply h)
  | deliver h =>
    refine .of_idle ?_ (.deliver h)
    obtain ⟨u, hu, rfl⟩ := Option.map_eq_some_iff.mp h
    exact (SameFile.addReply hu).trans (.installWriteHandler _ u)
  -- the databases are no part of the file
  | database _ _ h => exact .of_idle (.putDatabases h) (.putDatabases h)
  | scanned _ _ h => exact .of_idle (.putDatabases h) (.putDatabases h)
  | watch h =>
    refine .of_idle ?_ (.watch h)
    obtain ⟨db, -, h⟩ := Option.bind_eq_some_iff.mp h
    obtain ⟨cl, -, rfl⟩ := Option.map_eq_some_iff.mp h
    exact ⟨rfl, rfl, rfl⟩
  | unwatch h => exact .of_idle (.unwatch h) (.unwatch h)
  | subscribe h =>
    refine .of_idle ?_ (.subscribeChannel h)
    obtain ⟨cl, -, rfl⟩ := Option.map_eq_some_iff.mp h
    split <;> exact ⟨rfl, rfl, rfl⟩
  | unsubscribe h =>
    refine .of_idle ?_ (.unsubscribeChannel h)
    obtain ⟨cl, -, rfl⟩ := Option.map_eq_some_iff.mp h
    split <;> exact ⟨rfl, rfl, rfl⟩
  | psubscribe h =>
    refine .of_idle ?_ (.psubscribePattern h)
    obtain ⟨cl, -, rfl⟩ := Option.map_eq_some_iff.mp h
    split <;> exact ⟨rfl, rfl, rfl⟩
  | punsubscribe h =>
    refine .of_idle ?_ (.punsubscribePattern h)
    obtain ⟨cl, -, rfl⟩ := Option.map_eq_some_iff.mp h
    split <;> exact ⟨rfl, rfl, rfl⟩
  | block hargs h =>
    refine .of_idle ?_ (.blockClient hargs h)
    obtain ⟨cl, deadline, env, -, rfl⟩ := blockClient_spec h
    exact ⟨rfl, rfl, rfl⟩
  | unblock _ h =>
    exact (Appends.of_idle (.unblockClient h) (.unblockClient h)).trans
      (.of_idle ⟨rfl, rfl, rfl⟩ (.note (e := .woken _ _) trivial _))
  | attach h =>
    refine .of_idle ?_ (.addReplica h)
    obtain ⟨u, hu, rfl⟩ := Option.map_eq_some_iff.mp h
    exact (SameFile.updateClient hu).trans ⟨rfl, rfl, rfl⟩
  | remove h => exact .of_idle (.removeClient h) (.removeClient h)
  | disconnect h => exact .of_idle (.disconnectFromMaster h) (.disconnectFromMaster h)
  | @replicate _ _ host port s _ h =>
    have hset : SameFile s (s.setMaster host port) := ⟨rfl, rfl, rfl⟩
    exact .of_idle (hset.trans (.disconnectFromMaster h))
      ((Idle.setMaster _ _ _).trans (.disconnectFromMaster h))
  -- the one step that appends: a handler has completed, and its command is logged
  | completed _ h => exact .complete h
  -- what the client that is woken appends comes between two steps that append nothing
  | @wake k c id cl _ t u _ h _ ih =>
    have hunblocked := Appends.of_idle (.unblockClient h) (.unblockClient h)
    have hnoted : Appends t (t.note (.woken id cl.blockCmd)) := .of_idle ⟨rfl, rfl, rfl⟩ (.note (e := .woken id cl.blockCmd) trivial t)
    exact ((hunblocked.trans hnoted).trans ih).trans
      (.of_idle (.installWriteHandler id u) (.installWriteHandler id u))

end SameFile

/-! ### The timer -/

/-- Nothing is logged and nothing is written from the one state to the other. -/
structure Rests (s t : Server S) : Prop where
  file : SameFile s t
  idle : Idle s t

section Timer

variable {s t u : Server S} {id : ClientId}

namespace Rests

/-- Where nothing happens. -/
theorem refl (s : Server S) : Rests s s := ⟨.refl s, .refl s⟩

/-- One step after another. -/
theorem trans (h : Rests s t) (h' : Rests t u) : Rests s u :=
  ⟨h.file.trans h'.file, h.idle.trans h'.idle⟩

/-- What is aside of the clients. -/
theorem aside (h : s.Aside t) : Rests s t :=
  ⟨⟨h.aofStream, h.lastAofFsyncTime, h.appendFsync⟩, .aside h⟩

/-- An event that logs nothing. -/
theorem note {e : Event} (he : e.IsIdle) (s : Server S) : Rests s (s.note e) :=
  ⟨⟨rfl, rfl, rfl⟩, .note he s⟩

/-- By induction on the clients. -/
theorem closeClients (ids : List ClientId) : ∀ {s t : Server S},
    s.closeClients ids = some t → Rests s t := by
  induction ids with
  | nil => exact fun h => Option.some.inj h ▸ refl _
  | cons id ids ih =>
    intro s t h
    obtain ⟨u, hu, ht⟩ := Option.bind_eq_some_iff.mp h
    exact Rests.trans ⟨.removeClient hu, .removeClient hu⟩ (ih ht)

/-- The timer closes those that have been idle for too long. -/
theorem closeIdleClients {timeoutSeconds : ℤ} (h : s.closeIdleClients timeoutSeconds = some t) :
    Rests s t := by
  unfold Server.closeIdleClients at h
  split at h
  · exact Option.some.inj h ▸ refl s
  · exact (aside {}).trans (closeClients _ h)

/-- A client that has waited for too long is answered, and its command is not run. -/
theorem timeOut (h : s.timeOut id = some t) : Rests s t := by
  obtain ⟨cl, -, h⟩ := Option.bind_eq_some_iff.mp h
  split at h
  · obtain ⟨u, hu, h⟩ := Option.bind_eq_some_iff.mp h
    obtain ⟨v, hv, rfl⟩ := Option.map_eq_some_iff.mp hu
    have hcmd (cl : Client) : (cl.addReply nullArray).blockCmd = cl.blockCmd := rfl
    have hreplied : Rests s v := ⟨.updateClient hv, .updateClient hcmd hv⟩
    have hidle (scheduled : Bool) : (Event.timedOut id scheduled).IsIdle := trivial
    exact (hreplied.trans (note (hidle _) v)).trans ⟨.unblockClient h, .unblockClient h⟩
  · exact Option.some.inj h ▸ refl s

/-- By induction on the clients. -/
theorem timeOutAll (ids : List ClientId) : ∀ {s t : Server S},
    s.timeOutAll ids = some t → Rests s t := by
  induction ids with
  | nil => exact fun h => Option.some.inj h ▸ refl _
  | cons id ids ih =>
    intro s t h
    obtain ⟨u, hu, ht⟩ := Option.bind_eq_some_iff.mp h
    exact (timeOut hu).trans (ih ht)

/-- A new client. -/
theorem addClient (s : Server S) : Rests s s.addClient := by
  refine ⟨?_, .addClient s⟩
  unfold Server.addClient
  split <;> exact ⟨rfl, rfl, rfl⟩

/-- A link to the primary. -/
theorem connectToMaster (s : Server S) : Rests s s.connectToMaster := by
  unfold Server.connectToMaster
  dsimp only
  split
  · exact aside {}
  · have hping (id : ClientId) : (Event.reply id (bulkStringArray [str "PING"])).IsIdle := trivial
    refine Rests.trans ?_ (note (hping _) _)
    refine ⟨⟨rfl, rfl, rfl⟩, ?_⟩
    exact SameLog.idle ⟨rfl, rfl, rfl, rfl, rfl, rfl⟩ fun hs => hs.insert rfl (fun _ _ => rfl) trivial

/-- What the timer does for it. -/
theorem replicationCron (s : Server S) : Rests s s.replicationCron := by
  unfold Server.replicationCron
  split
  · exact connectToMaster s
  · exact refl s

end Rests

variable [Platform]

/-- Keys that the timer finds expired are deleted, and this is not logged. -/
theorem rests_expireAll (s : Server S) : (expireAll : EffectM S none none Exn Unit).Post s
    fun _ t => Rests s t := by
  have hput {i : ℕ} {ds : DbState S} {t u : Server S} (ht : Rests s t)
      (hu : t.putDatabase i ds = some u) : Rests s u :=
    ht.trans ⟨.putDatabases hu, .putDatabases hu⟩
  have hcycle (i : ℕ) : (EffectM.onDatabaseAt i (DbM.activeExpireCycle 20) :
      EffectM S none none Exn ℕ).Keeps (Rests s) := fun t ht =>
    (EffectM.post_onDatabaseAt i _ t _).mpr fun _ _ _ _ _ _ hu => hput ht hu
  have hkeeps : (expireAll : EffectM S none none Exn Unit).Keeps (Rests s) :=
    .bind (.read _) fun _ => .forM _ fun i _ => .bind (hcycle i) fun _ => .pure _
  exact hkeeps s (.refl s)

/-- `serverCron`, up to what it does about the append-only file. -/
def beforeFlush (s : Server S) : Option (Server S) :=
  let (nowLru, s) := s.steadyNow
  let memory := { s.env.memory with lruClock := UInt32.ofNat (nowLru / 1000).toNat }
  (expireAll.run { s with env := { s.env with memory := memory } }).bind fun x =>
    if 0 < x.2.config.clientTimeout then x.2.closeIdleClients x.2.config.clientTimeout else some x.2

omit [Platform] in
/-- `serverCron`, after what it does about the append-only file. -/
def afterFlush (nowLru : ℤ) (s : Server S) : Option (Server S) :=
  (s.timedOutClients nowLru).bind fun ids => (s.timeOutAll ids).map replicationCron

/-- The timer, cut at the flush. -/
theorem serverCron_eq (s : Server S) : s.serverCron =
    s.beforeFlush.bind fun v => v.cronFlush.afterFlush s.steadyNow.1 :=
  (Option.bind_assoc _ _ _).symm

/-- The part before the flush does not touch the log. -/
theorem rests_beforeFlush (h : s.beforeFlush = some t) : Rests s t := by
  obtain ⟨⟨r, u⟩, hu, h⟩ := Option.bind_eq_some_iff.mp h
  have hclock : Rests s { s.steadyNow.2 with env := { s.env with
    memory := { s.env.memory with lruClock := UInt32.ofNat (s.steadyNow.1 / 1000).toNat } } } := .aside {}
  have hexpired := hclock.trans (rests_expireAll _ r u hu)
  split at h
  · exact hexpired.trans (.closeIdleClients h)
  · exact Option.some.inj h ▸ hexpired

omit [Platform] in
/-- Nor does the part after it. -/
theorem rests_afterFlush {nowLru : ℤ} (h : s.afterFlush nowLru = some t) : Rests s t := by
  obtain ⟨ids, -, h⟩ := Option.bind_eq_some_iff.mp h
  obtain ⟨u, hu, rfl⟩ := Option.map_eq_some_iff.mp h
  exact (Rests.timeOutAll ids hu).trans (.replicationCron u)

/-- A call of `serverCron` that comes to the append-only file when the steady clock shows `now`. -/
def TicksAt (now : ℤ) (s t : Server S) : Prop :=
  s.serverCron = some t ∧ ∃ v, s.beforeFlush = some v ∧ v.outside.steady 0 = now

/-! ### The server follows the log -/

/-- The append-only file is on, and the server is where the log by itself is. -/
structure Shows (s : Server S) (policy : Bytes) (a : Aof) : Prop where
  appendOnly : s.config.appendOnly = true
  policy : s.config.appendFsync = policy
  buffer : s.aofBuffer = a.buffer
  file : s.aofStream = some a.file
  flushedAt : s.lastAofFsyncTime = a.flushedAt / 1000

variable {policy : Bytes} {a : Aof} {es : List Event} {now : ℤ}

omit [Platform] in
/-- Code that appends moves the log by itself as well. -/
theorem Shows.appends (hs : s.Shows policy a) (h : Appends s t) (hes : t.trace = s.trace ++ es)
    (hoff : .appendOnlyOff ∉ es) :
    t.Shows policy (a.run policy ((completedCommands es).map .wrote)) := by
  obtain ⟨hon, hbuffer⟩ := h.buffer hes hoff hs.appendOnly
  rw [Aof.run_wrote]
  exact ⟨hon, h.file.appendFsync.trans hs.policy, by rw [hbuffer, hs.buffer],
    h.file.aofStream.trans hs.file, h.file.lastAofFsyncTime.trans hs.flushedAt⟩

omit [Platform] in
/-- Where the server rests the log does. -/
theorem Shows.rests (hs : s.Shows policy a) (h : Rests s t) (hes : t.trace = s.trace ++ es)
    (hoff : .appendOnlyOff ∉ es) : t.Shows policy a ∧ completedCommands es = [] := by
  obtain ⟨es', hes', hidle, -⟩ := h.idle.trace
  obtain rfl : es = es' := List.append_cancel_left (hes.symm.trans hes')
  have hnone := completedCommands_of_idle hidle
  refine ⟨?_, hnone⟩
  have hshows := hs.appends (.of_idle h.file h.idle) hes hoff
  rwa [hnone] at hshows

omit [Platform] in
/-- A flush, after which nothing is in the buffer. -/
theorem Shows.flushAof (hs : s.Shows policy a) (now : ℤ) :
    { s.flushAof with lastAofFsyncTime := now / 1000 }.Shows policy
      { buffer := [], file := a.file ++ a.buffer, flushedAt := now } := by
  unfold Server.flushAof
  rw [hs.file]
  dsimp only
  split
  · exact ⟨hs.appendOnly, hs.policy, rfl, by rw [hs.buffer], rfl⟩
  · -- an empty buffer is not written, and the file stays the same
    next hnone =>
    have hempty : s.aofBuffer = [] := not_not.mp fun hne => hnone ⟨hs.appendOnly, hne⟩
    refine ⟨hs.appendOnly, hs.policy, hempty, ?_, rfl⟩
    rw [← hs.buffer, hempty, List.append_nil]
    exact hs.file

omit [Platform] in
/-- The file is written when the log by itself says so. -/
theorem Shows.cronFlush (hs : s.Shows policy a) :
    s.cronFlush.Shows policy (a.step policy (.tick (s.outside.steady 0))) := by
  have hdrawn : s.steadyNow.2.Shows policy a :=
    ⟨hs.appendOnly, hs.policy, hs.buffer, hs.file, hs.flushedAt⟩
  -- the server keeps the time in seconds, and the machine in milliseconds
  have hlast : s.steadyNow.2.lastAofFsyncTime = a.flushedAt / 1000 := hdrawn.flushedAt
  unfold Server.cronFlush
  rw [hs.policy]
  by_cases hpolicy : policy = str "everysec"
  · rw [if_pos ⟨hs.appendOnly, hpolicy⟩]
    dsimp only
    rw [hlast, Aof.step]
    split
    · next hdue =>
      rw [if_pos ⟨hpolicy, hdue⟩]
      exact hdrawn.flushAof _
    · next hearly =>
      rw [if_neg fun h => hearly h.2]
      exact hdrawn
  · rw [if_neg fun h => hpolicy h.2, Aof.step, if_neg fun h => hpolicy h.1]
    exact hs

/-! ### Runs -/

/-- From the one state to the other the server follows the log by itself, through some steps, while
the append-only file stays on. -/
structure Follows (s : Server S) (steps : List AofStep) (t : Server S) : Prop where
  trace : s.trace <+: t.trace
  shows : ∀ {es policy a}, t.trace = s.trace ++ es → .appendOnlyOff ∉ es → s.Shows policy a →
    t.Shows policy (a.run policy steps) ∧ completedCommands es = AofStep.writes steps

namespace Follows

variable {steps steps' : List AofStep}

omit [Platform] in
/-- One part of a run after another. -/
theorem trans (h : Follows s steps t) (h' : Follows t steps' u) : Follows s (steps ++ steps') u := by
  refine ⟨h.trace.trans h'.trace, fun {es policy a} hes hoff hs => ?_⟩
  obtain ⟨es₁, hes₁⟩ := h.trace
  obtain ⟨es₂, hes₂⟩ := h'.trace
  have hsplit : es = es₁ ++ es₂ := by
    rw [← hes₂, ← hes₁, List.append_assoc] at hes
    exact (List.append_cancel_left hes).symm
  rw [hsplit, List.mem_append, not_or] at hoff
  obtain ⟨ht, hwrites⟩ := h.shows hes₁.symm hoff.1 hs
  obtain ⟨hu, hwrites'⟩ := h'.shows hes₂.symm hoff.2 ht
  refine ⟨by rwa [Aof.run_append], ?_⟩
  rw [hsplit, completedCommands_append, hwrites, hwrites']
  exact List.filterMap_append.symm

omit [Platform] in
/-- Code that appends follows the log. -/
theorem of_appends (h : Appends s t) (hes : t.trace = s.trace ++ es) :
    Follows s ((completedCommands es).map .wrote) t := by
  refine ⟨h.trace, fun {es' policy a} hes' hoff hs => ?_⟩
  obtain rfl : es' = es := List.append_cancel_left (hes'.symm.trans hes)
  refine ⟨hs.appends h hes' hoff, ?_⟩
  rw [AofStep.writes, List.filterMap_map]
  exact List.filterMap_some.symm

omit [Platform] in
/-- Where the server rests there is no step to follow. -/
theorem of_rests (h : Rests s t) : Follows s [] t := by
  obtain ⟨es, hes, -⟩ := h.idle.trace
  exact ⟨hes ▸ List.prefix_append _ _, fun hes hoff hs => hs.rests h hes hoff⟩

/-- **The timer is one step** of the log by itself. -/
theorem of_ticksAt (h : s.TicksAt now t) : Follows s [.tick now] t := by
  obtain ⟨hcron, v, hv, rfl⟩ := h
  rw [serverCron_eq, hv] at hcron
  -- what the tick does before the flush and behind it leaves the file alone
  have hbefore := of_rests (rests_beforeFlush hv)
  have hafter := of_rests (rests_afterFlush hcron)
  have htrace : v.cronFlush.trace = v.trace := by
    unfold Server.cronFlush
    split
    · dsimp only
      split
      · unfold Server.flushAof
        split
        · split <;> rfl
        · rfl
      · rfl
    · rfl
  have hflush : Follows v [.tick (v.outside.steady 0)] v.cronFlush := by
    refine ⟨htrace ▸ List.prefix_rfl, fun hes _ hs => ⟨hs.cronFlush, ?_⟩⟩
    have hnil := List.append_cancel_left ((hes.symm.trans htrace).trans (List.append_nil _).symm)
    rw [hnil]
    rfl
  exact (hbefore.trans hflush).trans hafter

end Follows

variable [Double S] [Inhabited S] [LT S] [DecidableLT S] [BEq S]

/-- A request other than `EXEC`, which logs nothing of what it runs, and `BGREWRITEAOF`, which puts
another file in the place of the log. -/
def LeavesFile (command : RespValue) : Prop :=
  ∀ name args cmdName, command = .array (name :: args) → name.asString = .ok cmdName →
    Command.lookup cmdName ≠ some .exec ∧ Command.lookup cmdName ≠ some .bgrewriteaof

/-- A run of requests and of ticks of the timer, of clients that come and go, with what happens to the
log in it. -/
inductive AofRun (depth : ℕ) : Server S → List AofStep → Server S → Prop
  | refl {s : Server S} : AofRun depth s [] s
  | command {s t u : Server S} {steps : List AofStep} {c : ClientId} {command : RespValue}
      {program : CommandM S c command} {r : Except Empty Unit} {es : List Event} :
      AofRun depth s steps t → LeavesFile command →
      executeCommand (callbacks depth) c command = .ok program → program.run t = some (r, u) →
      u.trace = t.trace ++ es → AofRun depth s (steps ++ (completedCommands es).map .wrote) u
  | tick {s t u : Server S} {steps : List AofStep} {now : ℤ} : AofRun depth s steps t →
      t.TicksAt now u → AofRun depth s (steps ++ [.tick now]) u
  | connect {s t : Server S} {steps : List AofStep} : AofRun depth s steps t →
      AofRun depth s steps t.addClient
  | disconnect {s t u : Server S} {steps : List AofStep} {c : ClientId} : AofRun depth s steps t →
      t.removeClient c = some u → AofRun depth s steps u

/-- **The server follows the log by itself.** -/
theorem AofRun.follows {depth : ℕ} {steps : List AofStep} (h : AofRun depth s steps t) :
    Follows s steps t := by
  induction h with
  | refl => exact .of_rests (.refl _)
  | command _ _ _ hrun hes ih => exact ih.trans (.of_appends (Program.within _ hrun).appends hes)
  | tick _ htick ih => exact ih.trans (.of_ticksAt htick)
  | connect _ ih => simpa using ih.trans (.of_rests (.addClient _))
  | disconnect _ h ih => simpa using ih.trans (.of_rests ⟨.removeClient h, .removeClient h⟩)

end Timer

/-! ### Two runs -/

section Sample

open Sample

end Sample

end Server

end RedisDb
