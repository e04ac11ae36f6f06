import RedisDb.Commands.WriteReplies
import RedisDb.Server.Promotion

/-!
# What a write command does

A write command that does not block, in a server where nobody waits: it replies to its client, at least once and never
with an array, and it is propagated to the replicas (`Server.Writes`). It leaves the tables of clients and the link to
a master alone.

There are two parts to this. That a run stays within `Writes` is an invariant of the program of the handler
(`writes_handler`). Its steps are replies, which are scalars by what is known of the handlers (`WriteReplies`),
accesses to the selected database, and notes about the log, whose data are the text of the command. That there is a
reply at all is about the runs that end without an exception (`EffectM.Answers`): such a run has put something into
the output of its client, and what comes after it in the program does not take it out again, since the trace only
grows. For both parts the handlers are of four kinds (`Command.writes_induct`).

Then the two are carried through `executeCommand`: the eviction before the handler, the handler, and the log after it.
-/

namespace RedisDb

open RespSerializer EffectM

variable {S : Type}

/-- The events of a write command of a client, where what is propagated is `data`. -/
def Event.IsWriteOf (c : ClientId) (replicas : List ClientId) (data : Bytes) : Event → Prop
  | .reply id text => id = c ∧ Scalar text
  | .propagated id copy _ => id ∈ replicas ∧ copy = data
  | .completed .. | .pushes .. | .zadd .. => True
  | _ => False

namespace Server

/-- Flagging clients changes nothing but them. By induction on the clients. -/
theorem flagDirty_spec (ids : List ClientId) : ∀ {s t : Server S}, s.flagDirty ids = some t →
    ∃ clients, t = { s with clients := clients } := by
  induction ids with
  | nil => exact fun h => ⟨_, (Option.some.inj h).symm⟩
  | cons id ids ih =>
    intro s t h
    obtain ⟨u, hu, ht⟩ := Option.bind_eq_some_iff.mp h
    obtain ⟨cl, -, rfl⟩ := Option.map_eq_some_iff.mp hu
    obtain ⟨clients, rfl⟩ := ih ht
    exact ⟨clients, rfl⟩

/-- What a write command of a client does, besides what it does to the databases. -/
structure Writes (c : ClientId) (data : Bytes) (s t : Server S) : Prop where
  quiet : Quiet s t
  link : SameLink s t
  replState : t.replState = s.replState
  trace : ∃ es, t.trace = s.trace ++ es ∧ ∀ e ∈ es, e.IsWriteOf c s.replicas data

namespace Writes

variable {s t u : Server S} {c id : ClientId} {data : Bytes}

/-- The replicas are those of before. -/
theorem replicas (h : Writes c data s t) : t.replicas = s.replicas := congrArg Tables.replicas h.quiet.tables

/-- Nobody comes to wait. -/
theorem blockedClients (h : Writes c data s t) : t.blockedClients = s.blockedClients :=
  congrArg Tables.blockedClients h.quiet.tables

/-- Nothing is added to the trace. -/
theorem silent (hquiet : Quiet s t) (hlink : SameLink s t) (hstate : t.replState = s.replState)
    (htrace : t.trace = s.trace) : Writes c data s t :=
  ⟨hquiet, hlink, hstate, [], by rw [htrace, List.append_nil], by simp⟩

/-- Where nothing happens. -/
theorem refl (s : Server S) : Writes c data s s := silent (.refl s) (.refl s) rfl rfl

/-- One step after another, with the same replicas. -/
theorem trans (h : Writes c data s t) (h' : Writes c data t u) : Writes c data s u := by
  obtain ⟨es, hes, hall⟩ := h.trace
  obtain ⟨es', hes', hall'⟩ := h'.trace
  refine ⟨h.quiet.trans h'.quiet, h.link.trans h'.link, h'.replState.trans h.replState, es ++ es',
    by rw [hes', hes, List.append_assoc], fun e he => ?_⟩
  rcases List.mem_append.mp he with he | he
  · exact hall e he
  · exact h.replicas ▸ hall' e he

/-- An event of the kind that is expected. -/
theorem note {e : Event} (he : e.IsWriteOf c s.replicas data) : Writes c data s (s.note e) := by
  have hquiet : e.IsQuiet := by cases e <;> first | exact trivial | exact he.elim
  have hpromoted (host : Bytes) : e ≠ .promoted host := by
    rintro rfl
    exact he
  exact ⟨.note hquiet s, .note hpromoted s, rfl, [e], rfl, by simpa using he⟩

/-- A client's own. -/
theorem updateClient {f : Client → Client} (hf : ∀ cl : Client, cl.SameTables (f cl))
    (h : s.updateClient id f = some t) : Writes c data s t := by
  have hquiet := Quiet.updateClient (fun cl => (hf cl).record) h
  have hlink := SameLink.updateClient (fun cl => (hf cl).master) h
  obtain ⟨cl, hcl, rfl⟩ := Option.map_eq_some_iff.mp h
  exact silent hquiet hlink rfl rfl

/-- **A reply** that is a scalar. -/
theorem addReply {reply : Bytes} (hreply : Scalar reply) (h : s.addReply c reply = some t) :
    Writes c data s t := by
  obtain ⟨u, hu, rfl⟩ := Option.map_eq_some_iff.mp h
  have hquiet := Quiet.updateClient (f := (·.addReply reply)) (fun _ => rfl) hu
  have hlink := SameLink.updateClient (fun cl => cl.hasFlag_addReply reply _) hu
  obtain ⟨cl, hcl, rfl⟩ := Option.map_eq_some_iff.mp hu
  exact trans (silent hquiet hlink rfl rfl) (note ⟨rfl, hreply⟩)

/-- An access to a database may flag clients that watch. -/
theorem putDatabase [Platform] {i : ℕ} {db : Database S} {ds : DbState S}
    (hdb : s.databases[i]? = some db) (hcalls : (s.dbState db).Calls ds)
    (h : s.putDatabase i ds = some t) : Writes c data s t := by
  obtain ⟨clients, rfl⟩ := flagDirty_spec _ h
  exact silent (.putDatabase hdb hcalls h) (.putDatabases h) rfl rfl

/-- What is propagated is the text of the command, and it goes to replicas. -/
theorem logWrite {writer : ClientId} {cmd : List RespValue} {r : Except Exn Unit}
    (hdata : ∀ args, cmd.mapM RespValue.asString = .ok args → data = replicationText args)
    (h : s.logWrite writer cmd = some (r, t)) : Writes c data s t := by
  refine logWrite_keeps (I := Writes c data s) (fun buffer hs => hs.trans ?_) (fun u text hu => hu.trans ?_)
    (fun {u v i args} hargs hi hv hu => ?_) h (refl s)
  · exact silent ⟨rfl, rfl, rfl, [], (List.append_nil _).symm, by simp⟩ (.of_eq rfl rfl rfl rfl rfl) rfl rfl
  · exact silent ⟨rfl, rfl, rfl, [], (List.append_nil _).symm, by simp⟩ (.of_eq rfl rfl rfl rfl rfl) rfl rfl
  · have hquiet := Quiet.updateClient (f := (·.addReply (replicationText args))) (fun _ => rfl) hv
    have hlink := SameLink.updateClient (fun cl => cl.hasFlag_addReply (replicationText args) _) hv
    obtain ⟨cl, hcl, rfl⟩ := Option.map_eq_some_iff.mp hv
    have hsent := hu.trans (silent hquiet hlink rfl rfl)
    exact hsent.trans (note ⟨hsent.replicas.symm ▸ hi, (hdata args hargs).symm⟩)

/-- What comes after the handler: the log, if it is a write command. -/
theorem complete {writer : ClientId} {writes : Bool} {cmd : List RespValue} {r : Except Exn Unit}
    (hdata : ∀ args, cmd.mapM RespValue.asString = .ok args → data = replicationText args)
    (h : s.complete writer writes cmd = some (r, t)) : Writes c data s t :=
  complete_keeps (note (e := .completed writes cmd) trivial) (fun _ hlog hs => hs.trans (logWrite hdata hlog)) h

end Writes

end Server

/-! ### Programs -/

variable [Platform]

section Operations

open Server

variable {s₀ : Server S} {c id : ClientId} {data : Bytes} {k : Option RespValue} {ε α : Type}

/-- An operation of the server within what is expected. -/
theorem writes_call {k : Option RespValue} {c' : Option ClientId} {f : Server S → Option (Server S)}
    {h : ∀ s t, f s = some t → Does k c' s t} (hf : ∀ s t, f s = some t → Writes c data s t) :
    (EffectM.call f h : EffectM S k c' ε Unit).Keeps (Writes c data s₀) :=
  fun s hs => (post_call s _).mpr fun t ht => hs.trans (hf s t ht)

/-- A reply to the client. -/
theorem writes_addReply {reply : Bytes} (hreply : Scalar reply) :
    (addReply reply : EffectM S k (some c) ε Unit).Keeps (Writes c data s₀) :=
  writes_call fun _ _ => Writes.addReply hreply

/-- A look at the client. -/
theorem writes_client : (client id : EffectM S k (some c) ε Client).Keeps (Writes c data s₀) :=
  fun s hs => (post_client s _).mpr fun _ _ => hs

/-- A program on one database. -/
theorem writes_onDatabaseAt {i : ℕ} {p : DbM S α} :
    (onDatabaseAt i p : EffectM S k (some c) Exn α).Keeps (Writes c data s₀) := fun s hs =>
  (post_onDatabaseAt i p s _).mpr fun _ hdb _ _ hp _ ht =>
    hs.trans (.putDatabase hdb (p.within hp) ht)

/-- A program on the selected database. -/
theorem writes_onDatabase {p : DbM S α} :
    (onDatabase p : EffectM S k (some c) Exn α).Keeps (Writes c data s₀) :=
  .bind writes_client fun _ => .bind (.read _) fun _ => writes_onDatabaseAt

/-- The counters of the server, and what it draws from outside. -/
theorem writes_modify {f : Server S → Server S} {h : ∀ s : Server S, s.Aside (f s)}
    (hf : ∀ s, (f s).replState = s.replState ∧ (f s).trace = s.trace) :
    (modify f h : EffectM S k (some c) ε Unit).Keeps (Writes c data s₀) :=
  writes_call fun s _ ht => Option.some.inj ht ▸
    Writes.silent (.aside (h s)) (.aside (h s)) (hf s).1 (hf s).2

/-- What is drawn from outside the server, such as a clock reading. -/
theorem writes_draw {f : Server S → α × Server S} {h : ∀ s : Server S, s.Aside (f s).2}
    (hf : ∀ s, (f s).2.replState = s.replState ∧ (f s).2.trace = s.trace) :
    (draw f h : EffectM S k (some c) ε α).Keeps (Writes c data s₀) :=
  Program.Keeps.step fun s a t ht hs => by
    obtain rfl : (f s).2 = t := congrArg Prod.snd (Option.some.inj ht)
    exact hs.trans (Writes.silent (.aside (h s)) (.aside (h s)) (hf s).1 (hf s).2)

/-- What a program on a database returns it returns to the server. -/
theorem yields_onDatabaseAt {i : ℕ} {p : DbM S α} {Q : α → Prop} (hp : p.Yields Q) :
    (onDatabaseAt i p : EffectM S k (some c) Exn α).Yields Q := fun s a t hrun =>
  (post_onDatabaseAt i p s fun r _ => ∀ a, r = .ok a → Q a).mpr
    (fun _ _ _ ds hds _ _ a ha => hp _ a ds (ha ▸ hds)) _ t hrun a rfl

/-- The same of the selected one. -/
theorem yields_onDatabase {p : DbM S α} {Q : α → Prop} (hp : p.Yields Q) :
    (onDatabase p : EffectM S k (some c) Exn α).Yields Q :=
  .bind fun _ => .bind fun _ => yields_onDatabaseAt hp

end Operations

/-! ### Answering -/

/-- A run that ends without an exception has replied to the client. -/
def EffectM.Answers {k : Option RespValue} {c : ClientId} {ε α : Type} (p : EffectM S k (some c) ε α) :
    Prop :=
  ∀ s a t, p.run s = some (.ok a, t) →
    ∃ reply es, t.trace = s.trace ++ es ∧ .reply c reply ∈ es

namespace EffectM.Answers

variable {k : Option RespValue} {c : ClientId} {ε ε' α β : Type}

/-- A reply is an answer. -/
theorem addReply (data : Bytes) : (addReply data : EffectM S k (some c) ε Unit).Answers := by
  intro s a t hrun
  obtain ⟨u, hu, rfl⟩ := Option.map_eq_some_iff.mp (of_run_call hrun)
  obtain ⟨cl, -, rfl⟩ := Option.map_eq_some_iff.mp hu
  exact ⟨data, _, rfl, List.mem_singleton_self _⟩

/-- What has been replied stays in the trace. -/
theorem bind_left {p : EffectM S k (some c) ε α} (hp : p.Answers) (f : α → EffectM S k (some c) ε β) :
    (p >>= f).Answers := by
  intro s b t hrun
  rw [Program.run_bind] at hrun
  split at hrun
  · cases hrun
  · next a u hu =>
    obtain ⟨reply, es, hes, hmem⟩ := hp s a u hu
    obtain ⟨es', hes'⟩ := ((f a).within hrun).grows.trace
    exact ⟨reply, es ++ es', by rw [← hes', hes, List.append_assoc], List.mem_append_left es' hmem⟩
  · cases hrun

/-- An answer may come later. -/
theorem bind {p : EffectM S k (some c) ε α} {f : α → EffectM S k (some c) ε β}
    (hf : ∀ a, (f a).Answers) : (p >>= f).Answers := by
  intro s b t hrun
  rw [Program.run_bind] at hrun
  split at hrun
  · cases hrun
  · next a u hu =>
    obtain ⟨reply, es, hes, hmem⟩ := hf a u b t hrun
    obtain ⟨es', hes'⟩ := (p.within hu).grows.trace
    exact ⟨reply, es' ++ es, by rw [hes, ← hes', List.append_assoc], List.mem_append_right es' hmem⟩
  · cases hrun

/-- Both branches answer. -/
theorem ite {b : Prop} [Decidable b] {p q : EffectM S k (some c) ε α} (hp : p.Answers)
    (hq : q.Answers) : (if b then p else q).Answers := by
  split
  · exact hp
  · exact hq

/-- So does an exception, if its handler answers. -/
theorem handle {p : EffectM S k (some c) ε α} {f : ε → EffectM S k (some c) ε' α} (hp : p.Answers)
    (hf : ∀ e, (f e).Answers) : EffectM.Answers (p.handle f) := by
  intro s a t hrun
  rw [Program.run_handle] at hrun
  split at hrun
  · cases hrun
  · next a' u hu =>
    obtain ⟨heq, rfl⟩ := Prod.mk.inj (Option.some.inj hrun)
    exact hp s a' u hu
  · next e u hu =>
    obtain ⟨reply, es, hes, hmem⟩ := hf e u a t hrun
    obtain ⟨es', hes'⟩ := (p.within hu).grows.trace
    exact ⟨reply, es' ++ es, by rw [hes, ← hes', List.append_assoc], List.mem_append_right es' hmem⟩

end EffectM.Answers

/-! ### The handlers -/

section Handlers

open Server

variable {s₀ : Server S} {c : ClientId} {data : Bytes} {args : List RespValue}

/-- In a server where nobody waits, waking does nothing. -/
def Callbacks.Idle (callbacks : Callbacks S) : Prop :=
  ∀ c key s, s.blockedClients = ∅ → (callbacks.wake c key).Post s fun _ t => t = s

/-- A handler that works on a database and replies with a scalar. -/
theorem writes_databaseCommand {f : DatabaseCommand S} (hf : ∀ args, (f args).Yields Scalar) :
    (databaseCommand f c args).Keeps (Writes c data s₀) :=
  .bind_of writes_onDatabase (yields_onDatabase (hf args)) fun _ hreply => writes_addReply hreply

/-- A push that wakes nobody. -/
theorem writes_pushGeneric {callbacks : Callbacks S} (hidle : callbacks.Idle)
    (hs₀ : s₀.blockedClients = ∅) {left : Bool} :
    (pushGeneric (callbacks.wake c) args left).Keeps (Writes c data s₀) := by
  refine .bind (writes_call fun _ _ ht => Option.some.inj ht ▸ Writes.note trivial) fun _ =>
    .bind_of writes_onDatabase (yields_onDatabase (yields_pushElements args left))
      fun x hreply => .bind (writes_addReply hreply) fun _ => ?_
  split
  · intro s hs
    exact (hidle c _ s (hs.blockedClients.trans hs₀)).mono fun _ t ht => ht ▸ hs
  · exact .pure _

/-- `SET`, which replies and may count a change. -/
theorem writes_setHandler : (setHandler c args : ServerM S c Unit).Keeps (Writes c data s₀) := by
  refine .bind_of writes_onDatabase (yields_onDatabase (yields_setCommand args)) fun x hreply => ?_
  dsimp only
  split
  · exact .bind (writes_modify fun _ => ⟨rfl, rfl⟩) fun _ => writes_addReply hreply
  · exact writes_addReply hreply

/-- What works on a database replies. -/
theorem answers_databaseCommand (f : DatabaseCommand S) : (databaseCommand f c args).Answers :=
  .bind fun _ => .addReply _

/-- So does a push. -/
theorem answers_pushGeneric (wake : Bytes → ServerM S c Unit) (left : Bool) :
    (pushGeneric wake args left).Answers :=
  .bind fun _ => .bind fun _ => .bind_left (.addReply _) _

/-- So does `SET`. -/
theorem answers_setHandler : (setHandler c args : ServerM S c Unit).Answers := by
  refine .bind fun x => ?_
  dsimp only
  split
  · exact .bind fun _ => .addReply _
  · exact .addReply _

variable [Double S] [Inhabited S] [LT S] [DecidableLT S] [BEq S]

/-- `ZADD`, which draws the heights of the nodes. -/
theorem writes_zaddHandler : (zaddHandler c args : ServerM S c Unit).Keeps (Writes c data s₀) :=
  .bind (writes_call fun _ _ ht => Option.some.inj ht ▸ Writes.note trivial) fun _ =>
    .bind (writes_draw fun _ => ⟨rfl, rfl⟩) fun rng =>
      .bind_of writes_onDatabase (yields_onDatabase (yields_zaddCommand rng args))
        fun _ hreply => writes_addReply hreply

/-- **The handlers of the write commands.** -/
theorem writes_handler {callbacks : Callbacks S} (hidle : callbacks.Idle) {cmd : Command}
    (hcmd : cmd.IsPlainWrite) (hs₀ : s₀.blockedClients = ∅) :
    (cmd.handler callbacks c args).Keeps (Writes c data s₀) :=
  Command.writes_induct (P := fun handler => (handler c args).Keeps (Writes c data s₀))
    (fun _ hf => writes_databaseCommand hf) (writes_pushGeneric hidle hs₀)
    (.bind (writes_pushGeneric hidle hs₀) fun _ => writes_pushGeneric hidle hs₀) writes_setHandler
    writes_zaddHandler hcmd

/-- **They all answer.** -/
theorem answers_handler {callbacks : Callbacks S} {cmd : Command} (hcmd : cmd.IsPlainWrite) :
    (cmd.handler callbacks c args).Answers :=
  Command.writes_induct (P := fun handler => (handler c args).Answers)
    (fun f _ => answers_databaseCommand f) (answers_pushGeneric _ _)
    (.bind fun _ => answers_pushGeneric _ _) answers_setHandler
    (.bind fun _ => .bind fun _ => .bind fun _ => .addReply _) hcmd

/-! ### `executeCommand` -/

/-- Where nobody waits there is nobody to wake. -/
theorem idle_callbacks (depth : ℕ) : (callbacks depth : Callbacks S).Idle := by
  intro c key s hs r t hrun
  cases depth with
  | zero => cases hrun
  | succ depth =>
    have hnone : s.firstWaiter key = none := by rw [firstWaiter, hs]; rfl
    replace hrun : (handleClientsBlockedOnKey (callbacks depth) c key).run s = some (r, t) := hrun
    simp only [handleClientsBlockedOnKey, hnone] at hrun
    obtain ⟨-, rfl⟩ := Prod.mk.inj (Option.some.inj hrun)
    rfl

variable {name : RespValue} {cmdName : Bytes} {cmd : Command}

omit [Double S] [Inhabited S] [LT S] [DecidableLT S] [BEq S] in
/-- By induction on the rounds. -/
theorem writes_evictRounds {k : Option RespValue} {policy : Bytes} {samples : ℤ} {target : ℕ}
    (rounds : ℕ) :
    (evictRounds policy samples target rounds : EffectM S k (some c) Exn Unit).Keeps
      (Writes c data s₀) := by
  induction rounds with
  | zero => exact .pure _
  | succ rounds ih =>
    exact .bind (.read _) fun _ => .ite (.pure _) (.bind (.read _) fun _ =>
      .bind (.foldlM _ (fun _ _ _ => .bind writes_onDatabaseAt fun _ => .pure _) _)
        fun _ => .ite ih (.pure _))

omit [Double S] [Inhabited S] [LT S] [DecidableLT S] [BEq S] in
/-- Keys may be evicted first, or the command refused. -/
theorem writes_outOfMemory {k : Option RespValue} :
    (outOfMemory cmd : EffectM S k (some c) Empty Bool).Keeps (Writes c data s₀) := by
  have hevict : (evictKeysIfNeeded : EffectM S k (some c) Exn Unit).Keeps (Writes c data s₀) :=
    .bind (.read _) fun _ => .ite (.pure _) (.bind (.read _) fun _ => writes_evictRounds _)
  exact .bind (.read _) fun _ => .ite (.pure _) (.bind (.read _) fun _ => .ite (.pure _)
    (.bind (.handle hevict fun _ => .undefined) fun _ => .read _))

/-- **What a write command does.** -/
theorem writes_executeNamed {callbacks : Callbacks S} (hidle : callbacks.Idle)
    (hlookup : Command.lookup cmdName = some cmd) (hcmd : cmd.IsPlainWrite)
    (hname : name.asString = .ok cmdName) (hs₀ : s₀.blockedClients = ∅)
    (hdata : ∀ strs, (name :: args).mapM RespValue.asString = .ok strs → data = replicationText strs) :
    (executeNamed (c := c) callbacks hname args).Keeps (Writes c data s₀) := by
  have hlog (s t : Server S) (r : Except Exn Unit)
      (h : s.complete c (.write ∈ cmd.flags) (name :: args) = some (r, t)) : Writes c data s t := .complete hdata h
  rw [executeNamed, hlookup]
  refine .bind writes_outOfMemory fun _ => .ite (writes_addReply (scalar_error _))
    (.ite (writes_addReply (scalar_error _)) (.bind writes_client fun cl => .ite ?_ ?_))
  · refine .bind (writes_call fun s t => Writes.updateClient fun cl => ?_) fun _ =>
      writes_addReply (scalar_simpleString _)
    constructor <;> rfl
  · refine .handle (.bind (.lift (writes_handler hidle hcmd hs₀)) fun _ =>
      .bind (writes_modify fun _ => ⟨rfl, rfl⟩) fun _ => ?_) fun _ => writes_addReply (scalar_error _)
    exact fun s hs r t hrun => hs.trans (hlog s t r hrun)

/-- **A write command is answered.** -/
theorem answers_executeNamed {callbacks : Callbacks S} (hlookup : Command.lookup cmdName = some cmd)
    (hcmd : cmd.IsPlainWrite) (hname : name.asString = .ok cmdName) :
    (executeNamed (c := c) callbacks hname args).Answers := by
  rw [executeNamed, hlookup]
  refine .bind fun _ => .ite (.addReply _) (.ite (.addReply _) (.bind fun cl => .ite ?_ ?_))
  · exact .bind fun _ => .addReply _
  · refine .handle (.bind_left ?_ _) fun _ => .addReply _
    exact fun s a t hrun => answers_handler hcmd s a t hrun

end Handlers

end RedisDb
