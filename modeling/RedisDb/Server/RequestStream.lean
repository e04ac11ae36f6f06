import RedisDb.Server.Subscriptions

/-!
# The requests of one client

A client's bytes arrive in reads, and every read consumes all commands it completes before it runs the first of them
(`takeInput`, `runCommands`). This file is about what becomes of the commands of one read. `handedOn` is what the loop
of `processClientInput` executes of them. It ends early at a client that is blocked, and behind a command that has
marked its client for closing.

`handedOn_eq_throughQuit` says when the loop executes just what it should, which is the commands up to the first
`QUIT`. The induction is on the batch, and what carries it is `GoesThrough`: no command that has others behind it
leaves the client blocked or marked, but a `QUIT` that is not put into a transaction. That such a `QUIT` marks its
client is what its handler does (`closes_of_quit`).

A callback that does not read from a client leaves its input as it is (`keepsInputOf_turn`), so the stream of a client
is put together from its own reads.
-/

namespace RedisDb

open RespParser RespSerializer Incremental

variable {S : Type}

/-! ### Up to `QUIT` -/

/-- A `QUIT`: the array of its name alone. -/
def isQuit : RespValue → Bool
  | .array [name] =>
    match name.asString with
    | .ok s => toUpper s = str "QUIT"
    | .error _ => false
  | _ => false

theorem lookup_quit {name : Bytes} (h : toUpper name = str "QUIT") :
    Command.lookup name = some .quit := by
  rw [Command.lookup, h]
  decide +kernel

/-- The commands that precede the first `QUIT`. -/
def beforeQuit (commands : List RespValue) : List RespValue := commands.takeWhile (!isQuit ·)

/-- The commands up to the first `QUIT`, and that one too. -/
def throughQuit : List RespValue → List RespValue
  | [] => []
  | command :: commands => if isQuit command then [command] else command :: throughQuit commands

/-- Behind commands without a `QUIT`, the first `QUIT` is the first one of the rest. -/
theorem throughQuit_append (commands rest : List RespValue)
    (hnone : ∀ c ∈ throughQuit commands, isQuit c = false) :
    throughQuit (commands ++ rest) = throughQuit commands ++ throughQuit rest := by
  induction commands with
  | nil => rfl
  | cons command commands ih =>
    have hfirst : isQuit command = false := hnone command (by
      rw [throughQuit]
      split <;> exact List.mem_cons_self)
    simp only [List.cons_append, throughQuit, hfirst, Bool.false_eq_true, if_false] at hnone ⊢
    rw [ih fun c hc => hnone c (List.mem_cons_of_mem _ hc)]

namespace Server

variable {reserve : Reserve} {depth : ℕ} {id : ClientId} {s t u : Server S}

/-! ### Where the input of a client changes -/

/-- The input of a client stays as it is, unless the client is new. -/
structure KeepsInputOf (id : ClientId) (s t : Server S) : Prop where
  nextClient : s.nextClient ≤ t.nextClient
  input : ∀ {cl'}, t.clients.lookup id = some cl' →
    (∃ cl, s.clients.lookup id = some cl ∧ cl'.inputBuffer = cl.inputBuffer) ∨
      s.nextClient ≤ id ∧ cl'.inputBuffer = []

theorem SameInput.keepsInputOf (h : SameInput s t) (id : ClientId) : KeepsInputOf id s t where
  nextClient := h.nextClient
  input hcl' := (h.input hcl').imp_right fun ⟨hlow, _, hnil⟩ => ⟨hlow, hnil⟩

theorem KeepsInputOf.trans (h : KeepsInputOf id s t) (h' : KeepsInputOf id t u) :
    KeepsInputOf id s u where
  nextClient := h.nextClient.trans h'.nextClient
  input {cl''} hcl'' := by
    rcases h'.input hcl'' with ⟨cl', hcl', hsame⟩ | ⟨hlow, hnil⟩
    · rcases h.input hcl' with ⟨cl, hcl, hsame'⟩ | ⟨hlow, hnil⟩
      · exact .inl ⟨cl, hcl, hsame.trans hsame'⟩
      · exact .inr ⟨hlow, hsame.trans hnil⟩
    · exact .inr ⟨h.nextClient.trans hlow, hnil⟩

/-- The input of another client changes. -/
theorem keepsInputOf_update {i : ClientId} {cl : Client} (hne : id ≠ i)
    (hclients : t.clients = s.clients.insert i cl) (hnext : t.nextClient = s.nextClient) :
    KeepsInputOf id s t where
  nextClient := hnext.ge
  input {cl'} hcl' := by
    rw [hclients, UnorderedMap.lookup_insert_eq_ite, if_neg hne] at hcl'
    exact .inl ⟨cl', hcl', rfl⟩

/-- What `takeInput` does after a read: the commands it returns and the bytes it leaves are those of
`readInput`. -/
theorem takeInput_received {cl : Client} {bytes : Bytes} {commands : List RespValue}
    (h : (s.received id cl bytes).takeInput reserve id = some (commands, t)) :
    ∃ rest cl', readInput reserve cl.inputBuffer bytes = .ok (commands, rest) ∧
      t.clients = (s.received id cl bytes).clients.insert id cl' ∧ cl'.inputBuffer = rest ∧
      cl'.flags = cl.flags ∧ t.nextClient = s.nextClient ∧ t.reading = some id := by
  obtain ⟨cl₁, hcl₁, h⟩ := Option.bind_eq_some_iff.mp h
  have hreceived : cl₁ = { cl with inputBuffer := cl.inputBuffer ++ bytes,
                                   lastInteraction := s.steadyNow.1 } := by
    simp only [received, steadyNow, AList.lookup_insert] at hcl₁
    exact (Option.some.inj hcl₁).symm
  split at h
  · cases h
  · next result hparse =>
    obtain ⟨u, hu, heq⟩ := Option.map_eq_some_iff.mp h
    obtain ⟨rfl, rfl⟩ := Prod.mk.inj heq
    obtain ⟨cl₂, hcl₂, rfl⟩ := Option.map_eq_some_iff.mp hu
    obtain rfl := Option.some.inj (hcl₁.symm.trans hcl₂)
    refine ⟨_, _, ?_, rfl, rfl, ?_, rfl, rfl⟩
    · rw [hreceived] at hparse
      have hparse : parse reserve (cl.inputBuffer ++ bytes) = .ok result := hparse
      -- what has been consumed is removed, if it is anything
      by_cases hpos : 0 < result.bytesConsumed
      · simp only [readInput, hparse, hreceived, if_pos hpos]
      · simp only [readInput, hparse, hreceived, if_neg hpos]
    · rw [hreceived]
      dsimp only
      split <;> rfl

/-- The end of `onReadable`. -/
theorem SameInput.answered (cl : Client) (s : Server S) :
    SameInput s { (if cl.hasPendingOutput then s.installWriteHandler id else s) with reading := none } := by
  split
  · exact (SameInput.installWriteHandler id s).trans (.of_eq rfl rfl)
  · exact .of_eq rfl rfl

/-- What a callback reads from a client that is there: the client, and the bytes. -/
def Turn.reads (id : ClientId) (s : Server S) : Turn → Option (Client × Bytes)
  | .readable i (.data bytes) => if i = id then (s.clients.lookup id).map (·, bytes) else none
  | _ => none

section Requests

variable [Platform] [Double S] [Inhabited S] [LT S] [DecidableLT S] [BEq S]

/-! ### What the loop hands on -/

/-- Whether a client is there and has a flag. -/
def clientHas (id : ClientId) (flag : ClientFlag) (s : Server S) : Bool :=
  (s.clients.lookup id).any (·.hasFlag flag)

/-- The body of the loop of `processClientInput`: a reply of the master, or a command. -/
def dispatch (depth : ℕ) (id : ClientId) (command : RespValue) (s : Server S) : Option (Server S) :=
  (s.clients.lookup id).bind fun cl =>
    if cl.hasFlag .master ∧ s.replState ≠ .connected then s.syncWithMaster id command
    else
      match executeCommand (callbacks depth) id command with
      | .error _ => none
      | .ok program => (program.run s).map Prod.snd

/-- Commands one after another. -/
def dispatchAll (depth : ℕ) (id : ClientId) : List RespValue → Server S → Option (Server S)
  | [], s => some s
  | command :: commands, s => (s.dispatch depth id command).bind (dispatchAll depth id commands)

/-- The commands that the loop of `processClientInput` hands on before it ends, each with the length of the trace at
that time. -/
def handedOn (depth : ℕ) (id : ClientId) : List RespValue → Server S → List (ℕ × RespValue)
  | [], _ => []
  | command :: commands, s =>
    if s.clientHas id .blocked then []
    else
      (s.trace.length, command) ::
        match s.dispatch depth id command with
        | none => []
        | some t => if t.clientHas id .closeAsap then [] else handedOn depth id commands t

/-- One turn of the loop. -/
theorem runCommands_cons {command : RespValue} {commands : List RespValue}
    (h : s.runCommands depth id (command :: commands) = some t) :
    (s.clientHas id .blocked = true ∧ t = s) ∨
    s.clientHas id .blocked = false ∧ ∃ u, s.dispatch depth id command = some u ∧
      (u.clientHas id .closeAsap = true ∧ t = u ∨
        u.clientHas id .closeAsap = false ∧ u.runCommands depth id commands = some t) := by
  obtain ⟨cl, hcl, h⟩ := Option.bind_eq_some_iff.mp h
  have hblocked : s.clientHas id .blocked = cl.hasFlag .blocked := by rw [clientHas, hcl]; rfl
  split at h
  · next hflag => exact .inl ⟨hblocked.trans hflag, (Option.some.inj h).symm⟩
  · next hflag =>
    obtain ⟨u, hu, h⟩ := Option.bind_eq_some_iff.mp h
    obtain ⟨cl', hcl', h⟩ := Option.bind_eq_some_iff.mp h
    -- after a command the loop goes on unless the client is to be closed
    have hclosing : u.clientHas id .closeAsap = cl'.hasFlag .closeAsap := by
      rw [clientHas, hcl']; rfl
    refine .inr ⟨hblocked.trans (Bool.eq_false_of_not_eq_true hflag), u, ?_, ?_⟩
    · rw [dispatch, hcl]
      exact hu
    · split at h
      · next hclose => exact .inl ⟨hclosing.trans hclose, (Option.some.inj h).symm⟩
      · next hclose => exact .inr ⟨hclosing.trans (Bool.eq_false_of_not_eq_true hclose), h⟩

/-- What a batch has to do for the loop to go through it: a command that has others behind it, and no
`QUIT` before it, leaves the client neither blocked nor marked for closing, and if it is a `QUIT`
itself it is not put into a transaction. -/
def GoesThrough (depth : ℕ) (id : ClientId) (commands : List RespValue) (s : Server S) : Prop :=
  ∀ before command after t, commands = before ++ command :: after → after ≠ [] →
    (∀ c ∈ before, isQuit c = false) → s.dispatchAll depth id before = some t →
    if isQuit command then t.clientHas id .multi = false
    else ∀ u, t.dispatch depth id command = some u →
      u.clientHas id .blocked = false ∧ u.clientHas id .closeAsap = false

theorem GoesThrough.tail {command : RespValue} {commands : List RespValue}
    (h : s.GoesThrough depth id (command :: commands)) (hquit : isQuit command = false)
    (hu : s.dispatch depth id command = some u) : u.GoesThrough depth id commands := by
  intro before command' after t heq hafter hbefore ht
  refine h (command :: before) command' after t (by rw [heq, List.cons_append]) hafter ?_ ?_
  · exact fun c hc => (List.mem_cons.mp hc).elim (fun heq => heq ▸ hquit) (hbefore c)
  · rw [dispatchAll, hu]
    exact ht

/-- One command alone is gone through. -/
theorem goesThrough_of_length_le_one {commands : List RespValue} (h : commands.length ≤ 1) :
    s.GoesThrough depth id commands := by
  intro before command after t heq hafter
  have hlength := congrArg List.length heq
  rw [List.length_append, List.length_cons] at hlength
  have hpos := List.length_pos_iff.mpr hafter
  omega

/-! ### `QUIT` -/

omit [Double S] [Inhabited S] [LT S] [DecidableLT S] [BEq S] in
/-- The handler of `QUIT` marks its client for closing. -/
theorem returns_quit (args : List RespValue) (s : Server S) :
    (quitCommand id args : ServerM S id Unit).Returns s fun _ t =>
      t.clientHas id .closeAsap = true := by
  simp only [quitCommand, EffectM.addReply, EffectM.modifyClient, Program.returns_bind,
    EffectM.returns_call]
  intro t _ u hu
  obtain ⟨cl, -, rfl⟩ := Option.map_eq_some_iff.mp hu
  simp [clientHas, AList.lookup_insert]

/-- **`QUIT` outside a transaction closes**: its client is marked for closing after it. -/
theorem closes_of_quit {command : RespValue} (hquit : isQuit command = true)
    (hmulti : s.clientHas id .multi = false) (h : s.dispatch depth id command = some t) :
    t.clientHas id .closeAsap = true := by
  unfold isQuit at hquit
  split at hquit
  · next name =>
    cases hname : name.asString with
    | error e => rw [hname] at hquit; cases hquit
    | ok cmdName =>
      rw [hname] at hquit
      -- the table finds `QUIT`, whatever the case of its letters
      have hlookup : Command.lookup cmdName = some .quit := lookup_quit (by simpa using hquit)
      obtain ⟨cl, hcl, h⟩ := Option.bind_eq_some_iff.mp h
      have hmulti : cl.hasFlag .multi = false := by
        rw [clientHas, hcl] at hmulti
        exact hmulti
      split at h
      · -- an array is no reply that the handshake with the master can read
        cases h
      · rw [executeCommand_of_name hname] at h
        obtain ⟨⟨r, t'⟩, hrun, rfl⟩ := Option.map_eq_some_iff.mp h
        have hwrite : CommandFlag.write ∉ Command.quit.flags := by decide
        have haccepts : Command.quit.accepts (asInt (([] : List RespValue).length + 1)) = true := by
          decide
        -- outside of a transaction the handler runs, and sets the flag that closes the connection
        have hreturns : (executeNamed (callbacks depth) hname [] : CommandM S id _).Returns s
            fun _ t => t.clientHas id .closeAsap = true := by
          simp only [executeNamed, hlookup, outOfMemory, Program.returns_bind,
            Program.returns_read, hwrite, not_false_eq_true, true_or, if_true, Program.returns_pure,
            Bool.false_eq_true, if_false, haccepts, Bool.not_true, EffectM.returns_client]
          intro cl' hcl'
          obtain rfl := Option.some.inj (hcl.symm.trans hcl')
          rw [hmulti]
          refine Program.Returns.handle ?_ _
          rw [Program.returns_bind, Program.returns_lift]
          refine (returns_quit [name] s).mono fun _ t ht => ?_
          simp only [incrementCommandsProcessed, EffectM.modify, Program.returns_bind,
            EffectM.returns_call, Option.some.injEq]
          rintro u rfl r v hv
          -- it is no write command, and is only noted
          obtain ⟨rfl, rfl⟩ := Prod.mk.inj (Option.some.inj hv)
          exact ⟨(), rfl, ht⟩
        obtain ⟨-, -, hclosing⟩ := hreturns r t' hrun
        exact hclosing
  · cases hquit

/-- **A batch that can be gone through is gone through**, up to its first `QUIT`. By induction on the
batch. -/
theorem handedOn_eq_throughQuit (commands : List RespValue) : ∀ {s t : Server S},
    s.runCommands depth id commands = some t → s.clientHas id .blocked = false →
    s.GoesThrough depth id commands →
      (s.handedOn depth id commands).map Prod.snd = throughQuit commands := by
  induction commands with
  | nil => exact fun _ _ _ => rfl
  | cons command commands ih =>
    intro s t h hfree hthrough
    have hfirst := hthrough [] command commands s rfl
    rcases runCommands_cons h with ⟨hblocked, -⟩ | ⟨-, u, hu, hrest⟩
    · rw [hfree] at hblocked
      cases hblocked
    simp only [handedOn, throughQuit, hfree, Bool.false_eq_true, if_false, hu, List.map_cons]
    cases hquit : isQuit command with
    | true =>
      -- `QUIT` closes the connection, so nothing behind it is handed on
      rw [if_pos rfl]
      cases commands with
      | nil => split <;> rfl
      | cons next commands =>
        have hmulti := hfirst (List.cons_ne_nil _ _) (by simp) rfl
        rw [hquit, if_pos rfl] at hmulti
        rw [closes_of_quit hquit hmulti hu, if_pos rfl, List.map_nil]
    | false =>
      -- after another command the client goes on, as the hypothesis says
      rw [if_neg Bool.false_ne_true]
      congr 1
      cases commands with
      | nil => split <;> rfl
      | cons next commands =>
        have hafter := hfirst (List.cons_ne_nil _ _) (by simp) rfl
        rw [hquit, if_neg Bool.false_ne_true] at hafter
        obtain ⟨hfree', hopen⟩ := hafter u hu
        rw [hopen, if_neg Bool.false_ne_true]
        rcases hrest with ⟨hclose, -⟩ | ⟨-, h⟩
        · rw [hopen] at hclose
          cases hclose
        · exact ih h hfree' (hthrough.tail hquit hu)

/-- The commands that a read of a client hands on. -/
def handedOnAtRead (reserve : Reserve) (depth : ℕ) (id : ClientId) (cl : Client) (bytes : Bytes)
    (s : Server S) : List (ℕ × RespValue) :=
  if maxInputBuffer < (cl.inputBuffer ++ bytes).length then []
  else
    match (s.received id cl bytes).takeInput reserve id with
    | none => []
    | some (commands, t) => t.handedOn depth id commands

/-! ### Callbacks, by what they read -/

/-- What a read does with a client that is there. -/
theorem onReadable_spec {cl : Client} {bytes : Bytes} (hcl : s.clients.lookup id = some cl)
    (h : s.onReadable reserve depth id (.data bytes) = some t) :
    (maxInputBuffer < (cl.inputBuffer ++ bytes).length ∧ t.clients.lookup id = none ∧
      SameInput (s.received id cl bytes) t) ∨
    (cl.inputBuffer ++ bytes).length ≤ maxInputBuffer ∧ ∃ commands u v,
      (s.received id cl bytes).takeInput reserve id = some (commands, u) ∧
      u.runCommands depth id commands = some v ∧ SameInput v t := by
  unfold onReadable at h
  rw [hcl] at h
  obtain ⟨w, hw, rfl⟩ := Option.map_eq_some_iff.mp h
  split at hw
  · next hlong =>
    have hdone : SameInput w { w with reading := none } := .of_eq rfl rfl
    -- too much input, and the client is closed
    have hgone : w.clients.lookup id = none := lookup_removeClient hw
    exact .inl ⟨hlong, hgone, (SameInput.removeClient hw).trans hdone⟩
  · next hfits =>
    obtain ⟨v, hv, hw⟩ := Option.bind_eq_some_iff.mp hw
    obtain ⟨⟨commands, u⟩, hu, hv⟩ := Option.bind_eq_some_iff.mp hv
    obtain ⟨cl', -, rfl⟩ := Option.map_eq_some_iff.mp hw
    exact .inr ⟨not_lt.mp hfits, commands, u, v, hu, hv, .answered cl' v⟩

/-- **A callback that reads nothing from a client leaves its input alone.** -/
theorem keepsInputOf_turn {label : Turn} (hreads : label.reads id s = none) (h : s.turn reserve depth label = some t) :
    KeepsInputOf id s t := by
  cases label with
  | accept => exact Option.some.inj h ▸ (Advances.addClient s).input.keepsInputOf id
  | writable i answer => exact (Advances.onWritable h).input.keepsInputOf id
  | cron => exact (Advances.serverCron h).input.keepsInputOf id
  | readable i answer =>
    replace h : s.onReadable reserve depth i answer = some t := h
    cases hcl : s.clients.lookup i with
    | none =>
      unfold onReadable at h
      rw [hcl] at h
      exact Option.some.inj h ▸ (SameInput.refl s).keepsInputOf id
    | some cl =>
      cases answer with
      | wouldBlock =>
        unfold onReadable at h
        rw [hcl] at h
        exact Option.some.inj h ▸ (SameInput.refl s).keepsInputOf id
      | closed =>
        unfold onReadable at h
        rw [hcl] at h
        exact (SameInput.removeClient h).keepsInputOf id
      | data bytes =>
        -- another client is read; its commands leave the query buffer of this one alone
        have hne : id ≠ i := by
          rintro rfl
          rw [Turn.reads, if_pos rfl, hcl] at hreads
          cases hreads
        have hreceived : KeepsInputOf id s (s.received i cl bytes) :=
          keepsInputOf_update hne rfl rfl
        rcases onReadable_spec hcl h with ⟨-, -, hremoved⟩ | ⟨-, commands, u, v, hu, hv, hvt⟩
        · exact hreceived.trans (hremoved.keepsInputOf id)
        · obtain ⟨rest, cl', -, hclients, -, -, hnext, hreading'⟩ := takeInput_received hu
          have htaken : KeepsInputOf id (s.received i cl bytes) u :=
            keepsInputOf_update hne hclients hnext
          have hrun := (Advances.runCommands commands hreading' hv).input.keepsInputOf id
          exact ((hreceived.trans htaken).trans hrun).trans (hvt.keepsInputOf id)
end Requests

end Server

end RedisDb
