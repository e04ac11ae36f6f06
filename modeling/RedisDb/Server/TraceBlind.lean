import RedisDb.Lib.Lockstep
import RedisDb.Server.Interleavings

/-!
# What does not depend on the trace

The trace of a server is there to state theorems with, and nothing that the server does looks at it. That is shown
here for what a push does (`lockstep_wake`): from two states that differ in their traces at most, and there not in the
replies (`Server.SameReplies`), the same is done.

The two runs are compared by `Program.Lockstep`. Each operation of the server takes related states to related ones, or
is undefined in both, and a program is in lockstep with itself if its operations are. The one place where different
things are done on purpose is a note that is no reply (`lockstep_note`): this is how a handler may note the command
that it is called with.
-/

namespace RedisDb

open RespSerializer EffectM Program

variable {S : Type}

/-- An event that is a call of `addReply`. -/
def Event.isReply : Event → Bool
  | .reply _ _ => true
  | _ => false

namespace Server

/-- Two servers differ in their traces at most, and there not in the replies. -/
inductive SameReplies (s : Server S) : Server S → Prop
  | intro (trace : List Event) (h : trace.filter Event.isReply = s.trace.filter Event.isReply) :
      SameReplies s { s with trace := trace }

namespace SameReplies

variable {s s' : Server S} {id : ClientId}

/-- A server is like itself. -/
theorem refl (s : Server S) : SameReplies s s := ⟨s.trace, rfl⟩

/-- Events that are no replies do not count. -/
theorem note_of_not_isReply {e e' : Event} (h : SameReplies s s') (he : e.isReply = false)
    (he' : e'.isReply = false) : SameReplies (s.note e) (s'.note e') := by
  obtain ⟨trace, h⟩ := h
  refine ⟨trace ++ [e'], ?_⟩
  show _ = (s.trace ++ [e]).filter Event.isReply
  simp only [List.filter_append, List.filter_cons, he, he', Bool.false_eq_true, if_false, List.filter_nil, h]

/-- The same note. -/
theorem note (h : SameReplies s s') (e : Event) : SameReplies (s.note e) (s'.note e) := by
  obtain ⟨trace, h⟩ := h
  refine ⟨trace ++ [e], ?_⟩
  show _ = (s.trace ++ [e]).filter Event.isReply
  rw [List.filter_append, h, List.filter_append]

/-- The same change of a client. -/
theorem updateClient (h : SameReplies s s') (f : Client → Client) :
    Option.Rel SameReplies (s.updateClient id f) (s'.updateClient id f) := by
  obtain ⟨trace, h⟩ := h
  unfold Server.updateClient
  cases s.clients.lookup id with
  | none => exact .none
  | some cl => exact .some ⟨trace, h⟩

/-- The same reply. -/
theorem addReply (h : SameReplies s s') (data : Bytes) :
    Option.Rel SameReplies (s.addReply id data) (s'.addReply id data) :=
  (h.updateClient _).map fun _ _ h => h.note _

/-- The same write handler. -/
theorem installWriteHandler (h : SameReplies s s') (id : ClientId) :
    SameReplies (s.installWriteHandler id) (s'.installWriteHandler id) := by
  obtain ⟨trace, h⟩ := h
  unfold Server.installWriteHandler
  dsimp only
  split <;> exact ⟨trace, h⟩

/-- By induction on the clients. -/
theorem flagDirty (ids : List ClientId) : ∀ {s s' : Server S}, SameReplies s s' →
    Option.Rel SameReplies (s.flagDirty ids) (s'.flagDirty ids) := by
  induction ids with
  | nil => exact fun h => .some h
  | cons id ids ih => exact fun h => (h.updateClient _).bind fun _ _ => ih

/-- The same databases, and the same clients to be flagged. -/
theorem putDatabases (h : SameReplies s s') (databases : List (Database S)) (env : Env) :
    Option.Rel SameReplies (s.putDatabases databases env) (s'.putDatabases databases env) := by
  obtain ⟨trace, h⟩ := h
  exact flagDirty _ ⟨trace, h⟩

/-- The same client waits no longer. -/
theorem unblockClient (h : SameReplies s s') :
    Option.Rel SameReplies (s.unblockClient id) (s'.unblockClient id) := by
  obtain ⟨trace, h⟩ := h
  unfold Server.unblockClient
  cases s.clients.lookup id with
  | none => exact .none
  | some cl =>
    refine .some ?_
    dsimp only
    split <;> exact ⟨trace, h⟩

/-- The same client comes to wait. -/
theorem blockClient (h : SameReplies s s') (keys : List Bytes) (timeout : ℤ) (cmd : RespValue)
    (target : Bytes) :
    Option.Rel SameReplies (s.blockClient id keys timeout cmd target) (s'.blockClient id keys timeout cmd target) := by
  obtain ⟨trace, h⟩ := h
  unfold Server.blockClient blockDeadline
  cases s.clients.lookup id with
  | none => exact .none
  | some cl =>
    refine .some ?_
    dsimp only
    split
    · refine note ?_ _
      exact ⟨trace, h⟩
    · refine note ?_ _
      exact ⟨trace, h⟩

/-! ### The log -/

/-- By induction on the replicas. -/
theorem replyToReplicas (writer : ClientId) (data : Bytes) (ids : List ClientId) : ∀ {s s' : Server S},
    SameReplies s s' →
    Option.Rel SameReplies (Server.replyToReplicas writer data ids s) (Server.replyToReplicas writer data ids s') := by
  induction ids with
  | nil => exact fun h => .some h
  | cons id ids ih =>
    intro s s' h
    obtain ⟨trace, h⟩ := h
    exact (((SameReplies.intro trace h).updateClient _).map fun _ _ h => h.note _).bind fun _ _ => ih

/-- The buffer of the log. -/
theorem appendToAof (h : SameReplies s s') (cmd : List RespValue) :
    (s.appendToAof cmd).1 = (s'.appendToAof cmd).1 ∧ SameReplies (s.appendToAof cmd).2 (s'.appendToAof cmd).2 := by
  obtain ⟨trace, h⟩ := h
  unfold Server.appendToAof
  dsimp only
  split
  · cases cmd.mapM RespValue.asString with
    | error e => exact ⟨rfl, trace, h⟩
    | ok args =>
      refine ⟨rfl, ?_⟩
      dsimp only
      split <;> exact ⟨trace, h⟩
  · exact ⟨rfl, trace, h⟩

/-- The backlog and the replicas. -/
theorem propagateToReplicas (h : SameReplies s s') (writer : ClientId) (cmd : List RespValue) :
    Option.Rel (SameOutcome Eq SameReplies) (s.propagateToReplicas writer cmd)
      (s'.propagateToReplicas writer cmd) := by
  obtain ⟨trace, h⟩ := h
  unfold Server.propagateToReplicas
  dsimp only
  split
  · exact .some (.ok rfl ⟨trace, h⟩)
  · cases cmd.mapM RespValue.asString with
    | error e => exact .some (.error ⟨trace, h⟩)
    | ok args =>
      have hfed : SameReplies (s.feedReplicationBacklog (replicationText args))
          ({ s with trace := trace }.feedReplicationBacklog (replicationText args)) := ⟨trace, h⟩
      exact (replyToReplicas writer _ s.replicas hfed).map fun _ _ h => .ok rfl h

/-- The three places. -/
theorem logWrite (h : SameReplies s s') (writer : ClientId) (cmd : List RespValue) :
    Option.Rel (SameOutcome Eq SameReplies) (s.logWrite writer cmd) (s'.logWrite writer cmd) := by
  obtain ⟨heq, happended⟩ := h.appendToAof cmd
  unfold Server.logWrite
  generalize s.appendToAof cmd = x at heq happended ⊢
  generalize s'.appendToAof cmd = x' at heq happended ⊢
  obtain ⟨r, t⟩ := x
  obtain ⟨r', t'⟩ := x'
  obtain rfl : r = r' := heq
  cases r with
  | error e => exact .some (.error happended)
  | ok _ => exact happended.propagateToReplicas writer cmd

/-- What comes after a handler. -/
theorem complete (h : SameReplies s s') (writer : ClientId) (writes : Bool) (cmd : List RespValue) :
    Option.Rel (SameOutcome Eq SameReplies) (s.complete writer writes cmd) (s'.complete writer writes cmd) := by
  have hnoted := h.note (.completed writes cmd)
  cases writes with
  | true => exact hnoted.logWrite writer cmd
  | false => exact .some (.ok rfl hnoted)

end SameReplies

/-! ### Programs -/

/-- A relation of servers with the same data, which what is done to the data keeps. -/
structure SameData (I : Server S → Server S → Prop) : Prop where
  config : ∀ {s s'}, I s s' → s.config = s'.config
  databases : ∀ {s s'}, I s s' → s.databases = s'.databases
  env : ∀ {s s'}, I s s' → s.env = s'.env
  clients : ∀ {s s'}, I s s' → s.clients = s'.clients
  put : ∀ {s s'} (databases : List (Database S)) (env : Env), I s s' →
    Option.Rel I (s.putDatabases databases env) (s'.putDatabases databases env)

/-- Equal servers have the same data. -/
theorem sameData_eq : SameData (S := S) Eq where
  config h := congrArg Server.config h
  databases h := congrArg Server.databases h
  env h := congrArg Server.env h
  clients h := congrArg Server.clients h
  put databases env h := by
    subst h
    cases Server.putDatabases databases env _ with
    | none => exact .none
    | some t => exact .some rfl

/-- So have servers that differ in the trace. -/
theorem sameData_sameReplies : SameData (S := S) SameReplies where
  config h := by cases h; rfl
  databases h := by cases h; rfl
  env h := by cases h; rfl
  clients h := by cases h; rfl
  put databases env h := h.putDatabases databases env

section Programs

variable [Platform] {k k' : Option RespValue} {o : Option ClientId} {ε α β : Type}
  {I J : Server S → Server S → Prop}

/-- Two operations that take related states to related ones. -/
theorem lockstep_call {f f' : Server S → Option (Server S)} {h : ∀ s t, f s = some t → Does k o s t}
    {h' : ∀ s t, f' s = some t → Does k' o s t} (hf : ∀ s s', I s s' → Option.Rel J (f s) (f' s')) :
    (call f h : EffectM S k o ε Unit).Lockstep I J Eq (call f' h' : EffectM S k' o ε Unit) :=
  .step fun s s' hs => (hf s s' hs).map fun _ _ ht => ⟨rfl, ht⟩

variable (hI : SameData I)

include hI

/-- A look at a client. -/
theorem SameData.lockstep_client (id : ClientId) :
    (client id : EffectM S k o ε Client).Lockstep I I Eq (client id : EffectM S k' o ε Client) := by
  refine .step fun s s' hs => ?_
  rw [hI.clients hs]
  cases s'.clients.lookup id with
  | none => exact .none
  | some cl => exact .some ⟨rfl, hs⟩

/-- Programs in lockstep, on one database. -/
theorem SameData.lockstep_onDatabaseAt {A : α → β → Prop} (i : ℕ) {p : DbM S α} {q : DbM S β}
    (h : p.Lockstep Eq Eq A q) :
    (onDatabaseAt i p : EffectM S k o Exn α).Lockstep I I A (onDatabaseAt i q : EffectM S k' o Exn β) := by
  intro s s' hs
  -- the same databases and the same environment, so the program sees the same and leaves the same
  have hput (ds : DbState S) : Option.Rel I (s.putDatabase i ds) (s'.putDatabase i ds) := by
    unfold putDatabase
    rw [hI.databases hs]
    exact hI.put _ _ hs
  have hstate (db : Database S) : s.dbState db = s'.dbState db := by
    unfold dbState
    rw [hI.env hs]
  unfold onDatabaseAt
  dsimp only
  rw [hI.databases hs]
  cases s'.databases[i]? with
  | none => exact .none
  | some db =>
    dsimp only
    rw [hstate db]
    have hsame := h _ _ (Eq.refl (s'.dbState db))
    generalize p.run _ = x at hsame ⊢
    generalize q.run _ = x' at hsame ⊢
    cases hsame with
    | none => exact .none
    | some hx =>
      cases hx with
      | ok ha heq => exact heq ▸ (hput _).map fun t t' ht => .ok ha ht
      | error heq => exact heq ▸ (hput _).map fun t t' ht => .error ht

/-- The same on the selected one. -/
theorem SameData.lockstep_onDatabase {A : α → β → Prop} {c : ClientId} {p : DbM S α} {q : DbM S β}
    (h : p.Lockstep Eq Eq A q) :
    (onDatabase p : EffectM S k (some c) Exn α).Lockstep I I A
      (onDatabase q : EffectM S k' (some c) Exn β) := by
  refine .seq (hI.lockstep_client c) fun cl => .seq (.read fun s s' hs => ?_) fun i => hI.lockstep_onDatabaseAt i h
  unfold databaseIndex
  rw [hI.databases hs]

/-- By induction on the rounds. -/
theorem SameData.lockstep_evictRounds (policy : Bytes) (samples : ℤ) (target rounds : ℕ) :
    (evictRounds policy samples target rounds : EffectM S k o Exn Unit).Lockstep I I Eq
      (evictRounds policy samples target rounds : EffectM S k' o Exn Unit) := by
  induction rounds with
  | zero => exact .pure rfl
  | succ rounds ih =>
    refine .seq (.read fun s s' hs => by rw [hI.env hs]) fun used => .ite (.pure rfl) ?_
    refine .seq (.read fun s s' hs => by rw [hI.databases hs]) fun count => ?_
    refine .seq (.foldlM (fun evicted i => ?_) _ _) fun evicted => .ite ih (.pure rfl)
    exact .seq (hI.lockstep_onDatabaseAt i (.of_run_eq fun _ => rfl)) fun _ => .pure rfl

/-- The same keys are evicted. -/
theorem SameData.lockstep_outOfMemory (cmd : Command) :
    (outOfMemory cmd : EffectM S k o Empty Bool).Lockstep I I Eq (outOfMemory cmd : EffectM S k' o Empty Bool) := by
  have hread {β ε : Type} {k k' : Option RespValue} (f : Server S → β) (hf : ∀ s s', I s s' → f s = f s') :
      (.read f : EffectM S k o ε β).Lockstep I I Eq (.read f : EffectM S k' o ε β) := .read hf
  refine .seq (hread _ fun s s' hs => hI.config hs) fun config => .ite (.pure rfl) ?_
  have hover : ∀ s s' : Server S, I s s' →
      decide (asUInt64 config.maxMemory < s.env.memory.usedMemory)
        = decide (asUInt64 config.maxMemory < s'.env.memory.usedMemory) := fun s s' hs => by rw [hI.env hs]
  refine .seq (hread _ hover) fun _ => .ite (.pure rfl) ?_
  refine .seq (.handle ?_ (fun _ _ ht => ht) fun _ => .undefined) fun _ => hread _ hover
  refine .seq (hread _ fun s s' hs => hI.config hs) fun config => .ite (.pure rfl) ?_
  exact .seq (hread _ fun s s' hs => by rw [hI.databases hs]) fun keys => hI.lockstep_evictRounds _ _ _ _

end Programs

/-! ### Waking -/

section Wake

variable [Platform] {k : Option RespValue} {c : ClientId} {ε : Type}

/-- A reply. -/
theorem lockstep_addReply {id : ClientId} (data : Bytes) :
    (EffectM.addReply data : EffectM S k (some id) ε Unit).Lockstep SameReplies SameReplies Eq
      (EffectM.addReply data : EffectM S k (some id) ε Unit) :=
  lockstep_call fun _ _ hs => hs.addReply data

/-- A change beside the data. -/
theorem lockstep_modify {f : Server S → Server S} {h : ∀ s : Server S, s.Aside (f s)} {o : Option ClientId}
    (hf : ∀ s s', SameReplies s s' → SameReplies (f s) (f s')) :
    (modify f h : EffectM S k o ε Unit).Lockstep SameReplies SameReplies Eq (modify f h : EffectM S k o ε Unit) :=
  lockstep_call fun s s' hs => .some (hf s s' hs)

/-- What is drawn from outside. -/
theorem lockstep_draw {β : Type} {f : Server S → β × Server S} {h : ∀ s : Server S, s.Aside (f s).2}
    {o : Option ClientId} (hf : ∀ s s', SameReplies s s' → (f s).1 = (f s').1 ∧ SameReplies (f s).2 (f s').2) :
    (draw f h : EffectM S k o ε β).Lockstep SameReplies SameReplies Eq (draw f h : EffectM S k o ε β) :=
  .step fun s s' hs => .some (hf s s' hs)

/-- A note in the trace that is no reply may be any other. -/
theorem lockstep_note {e e' : Server S → Event} {o : Option ClientId} {h : ∀ s : Server S, s.Aside (s.note (e s))}
    {h' : ∀ s : Server S, s.Aside (s.note (e' s))} (he : ∀ s, (e s).isReply = false)
    (he' : ∀ s, (e' s).isReply = false) :
    (modify (fun s => s.note (e s)) h : EffectM S k o ε Unit).Lockstep SameReplies SameReplies Eq
      (modify (fun s => s.note (e' s)) h' : EffectM S k o ε Unit) :=
  lockstep_call fun s s' hs => .some (hs.note_of_not_isReply (he s) (he' s'))

/-- The command is counted. -/
theorem lockstep_incrementCommandsProcessed {o : Option ClientId} :
    (incrementCommandsProcessed : EffectM S k o ε Unit).Lockstep SameReplies SameReplies Eq
      (incrementCommandsProcessed : EffectM S k o ε Unit) := by
  refine lockstep_modify ?_
  rintro s - ⟨trace, h⟩
  exact ⟨trace, h⟩

/-- A blocking pop. -/
theorem lockstep_blockingPop (left : Bool) (args : List RespValue) :
    (blockingPop left c args : ServerM S c Unit).Lockstep SameReplies SameReplies Eq
      (blockingPop left c args : ServerM S c Unit) := by
  refine .seq (sameData_sameReplies.lockstep_onDatabase (.of_run_eq fun _ => rfl)) fun outcome => ?_
  cases outcome with
  | reply data => exact lockstep_addReply data
  | block keys timeout strings => exact lockstep_call fun _ _ hs => hs.blockClient keys timeout _ _

variable [Double S] [Inhabited S] [LT S] [DecidableLT S] [BEq S] {cb : Callbacks S} {name : RespValue}
  {args : List RespValue}

/-- A handler, and what comes after it. -/
theorem lockstep_runHandler {cmd : Command} (hname : name.IsString)
    (hhandler : (cmd.handler cb c (name :: args)).Lockstep SameReplies SameReplies Eq
      (cmd.handler cb c (name :: args))) :
    (runHandler (c := c) cb cmd hname args).Lockstep SameReplies SameReplies Eq
      (runHandler (c := c) cb cmd hname args) := by
  refine .handle (.seq hhandler.lift fun _ => .seq lockstep_incrementCommandsProcessed fun _ => ?_)
    (fun _ _ ht => ht) fun e => lockstep_addReply _
  exact fun s s' hs => hs.complete c (.write ∈ cmd.flags) (name :: args)

/-- A command with a name, if its handler is in lockstep. -/
theorem lockstep_executeNamed {cmdName : Bytes} (hname : name.asString = .ok cmdName)
    (hhandler : ∀ cmd, Command.lookup cmdName = some cmd → (cmd.handler cb c (name :: args)).Lockstep SameReplies
      SameReplies Eq (cmd.handler cb c (name :: args))) :
    (executeNamed (c := c) cb hname args).Lockstep SameReplies SameReplies Eq
      (executeNamed (c := c) cb hname args) := by
  unfold executeNamed
  cases hcmd : Command.lookup cmdName with
  | none => exact lockstep_addReply _
  | some cmd =>
    refine .seq (sameData_sameReplies.lockstep_outOfMemory cmd) fun _ => .ite (lockstep_addReply _) ?_
    refine .ite (lockstep_addReply _) (.seq (sameData_sameReplies.lockstep_client c) fun cl => .ite ?_ ?_)
    · exact .seq (lockstep_call fun _ _ hs => hs.updateClient _) fun _ => lockstep_addReply _
    · exact lockstep_runHandler _ (hhandler cmd hcmd)

/-- A blocking pop does not depend on the trace. -/
theorem lockstep_pop {v : RespValue} {program : CommandM S c v} (hpop : v = .null ∨ v.IsPop)
    (h : executeCommand cb c v = .ok program) : program.Lockstep SameReplies SameReplies Eq program := by
  unfold executeCommand at h
  split at h
  · exact Except.ok.inj h ▸ lockstep_addReply _
  · next name args =>
    split at h
    · cases h
    · next cmdName hname =>
      -- the commands that may be run again are the two blocking pops
      refine Except.ok.inj h ▸ lockstep_executeNamed hname fun cmd hcmd => ?_
      rw [RespValue.IsPop, RespValue.named_of_name hname, hcmd] at hpop
      rcases hpop with hnull | hpop | hpop
      · cases hnull
      · obtain rfl := Option.some.inj hpop
        exact lockstep_blockingPop true _
      · obtain rfl := Option.some.inj hpop
        exact lockstep_blockingPop false _
  · exact Except.ok.inj h ▸ lockstep_addReply _

/-- **Who is woken, and what is done then, does not depend on the trace.** -/
theorem lockstep_wake (key : Bytes) :
    (handleClientsBlockedOnKey cb c key).Lockstep (fun s s' => SameReplies s s' ∧ s.PopsWait) SameReplies Eq
      (handleClientsBlockedOnKey cb c key) := by
  rintro s s' ⟨hs, hpops⟩
  -- both wake the same client, with the same command
  have hsame : s.firstWaiter key = s'.firstWaiter key := by cases hs; rfl
  have hclients := sameData_sameReplies.clients hs
  simp only [handleClientsBlockedOnKey]
  rw [hsame, hclients]
  cases s'.firstWaiter key with
  | none => exact .some (.ok rfl hs)
  | some id =>
    dsimp only
    cases hcl : s'.clients.lookup id with
    | none => exact .none
    | some cl =>
      have hunblock : Option.Rel SameReplies (s.unblockClient id) (s'.unblockClient id) := hs.unblockClient
      generalize s.unblockClient id = x at hunblock ⊢
      generalize s'.unblockClient id = x' at hunblock ⊢
      cases hunblock with
      | none => exact .none
      | some ht =>
        dsimp only
        split
        · exact .some (.error (ht.note (.woken id cl.blockCmd)))
        · next program hprogram =>
          have hrun := lockstep_pop (hpops id cl (hclients ▸ hcl)) hprogram _ _ (ht.note (.woken id cl.blockCmd))
          generalize program.run _ = y at hrun ⊢
          generalize program.run _ = y' at hrun ⊢
          cases hrun with
          | none => exact .none
          | @some x x' hsame =>
            obtain ⟨r, u⟩ := x
            obtain ⟨r', u'⟩ := x'
            have hu : SameReplies u u' := by cases hsame <;> assumption
            dsimp only
            rw [sameData_sameReplies.clients hu]
            split
            · exact .none
            · exact .some (.ok rfl (hu.installWriteHandler id))

end Wake

end Server

end RedisDb
