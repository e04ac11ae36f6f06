import RedisDb.Server.Watching

/-!
# Interleavings

The event loop in small steps, with the requests that have been executed so far (`Server.Interleaving`).
What other clients do between two requests of one client is any number of such steps, so a theorem about
every such run is one about every interleaving. Every state between callbacks is reached in this way
(`Reachable.interleaving`).

The steps that execute nothing are calm.
-/

namespace RedisDb

open RespSerializer EffectM

variable {S : Type}

namespace Server

/-- A request, with the client whose it is. -/
abbrev Request : Type := ClientId × RespValue

/-- Nothing that a callback reads is handed on. -/
def Turn.HandsOnNothing (label : Turn) (s : Server S) : Prop :=
  ∀ id cl bytes, label.reads id s = some (cl, bytes) → maxInputBuffer < (cl.inputBuffer ++ bytes).length

/-- What a client sends is taken as the reply of the master in a handshake. -/
def Handshakes (id : ClientId) (s : Server S) : Prop :=
  s.clientHas id .master = true ∧ s.replState ≠ .connected

instance (id : ClientId) (s : Server S) : Decidable (s.Handshakes id) := inferInstanceAs (Decidable (_ ∧ _))

/-- The commands that are still to come when one has been run: none, where the client is to be closed. -/
def remaining (id : ClientId) (commands : List RespValue) (s : Server S) : List RespValue :=
  if s.clientHas id .closeAsap then [] else commands

variable [Platform] [Double S] [Inhabited S] [LT S] [DecidableLT S] [BEq S]

/-- **The event loop in small steps**: the requests that have been executed, each as `P` allows it after those before
it; while the commands of a client are run, those still to come; and the server. -/
inductive Interleaving (reserve : Reserve) (depth : ℕ) (P : List Request → Server S → Request → Prop) :
    List Request → Option (ClientId × List RespValue) → Server S → Prop
  | start {s} : s.Starts → Interleaving reserve depth P [] none s
  | callback {h s t} (label : Turn) : Interleaving reserve depth P h none s → label.HandsOnNothing s →
      s.turn reserve depth label = some t → Interleaving reserve depth P h none t
  | read {h s t id cl bytes commands} : Interleaving reserve depth P h none s →
      s.clients.lookup id = some cl → (cl.inputBuffer ++ bytes).length ≤ maxInputBuffer →
      (s.received id cl bytes).takeInput reserve id = some (commands, t) →
      Interleaving reserve depth P h (some (id, commands)) t
  | command {h s t id command commands r} {program : CommandM S id command} :
      Interleaving reserve depth P h (some (id, command :: commands)) s → s.clientHas id .blocked = false →
      ¬s.Handshakes id → P h s (id, command) → executeCommand (callbacks depth) id command = .ok program →
      program.run s = some (r, t) →
      Interleaving reserve depth P (h ++ [(id, command)]) (some (id, t.remaining id commands)) t
  | handshake {h s t id command commands} :
      Interleaving reserve depth P h (some (id, command :: commands)) s → s.clientHas id .blocked = false →
      s.Handshakes id → s.syncWithMaster id command = some t →
      Interleaving reserve depth P h (some (id, t.remaining id commands)) t
  /-- The commands behind one that has blocked the client are dropped. -/
  | dropped {h s id commands} : Interleaving reserve depth P h (some (id, commands)) s →
      s.clientHas id .blocked = true → Interleaving reserve depth P h (some (id, [])) s
  | answered {h s id cl} : Interleaving reserve depth P h (some (id, [])) s →
      s.clients.lookup id = some cl → Interleaving reserve depth P h none
        { (if cl.hasPendingOutput then s.installWriteHandler id else s) with reading := none }

variable {reserve : Reserve} {depth : ℕ} {P : List Request → Server S → Request → Prop} {h : List Request}
  {m : Option (ClientId × List RespValue)} {s t : Server S} {id : ClientId}

/-! ### The event loop -/

/-- The requests that the loop of `processClientInput` executes. -/
def executed (depth : ℕ) (id : ClientId) : List RespValue → Server S → List Request
  | [], _ => []
  | command :: commands, s =>
    if s.clientHas id .blocked then []
    else (if s.Handshakes id then [] else [(id, command)]) ++
      match s.dispatch depth id command with
      | none => []
      | some t => if t.clientHas id .closeAsap then [] else executed depth id commands t

/-- The requests that a callback executes. -/
def Turn.executes (reserve : Reserve) (depth : ℕ) (s : Server S) : Turn → List Request
  | .readable id (.data bytes) =>
    match s.clients.lookup id with
    | none => []
    | some cl =>
      if maxInputBuffer < (cl.inputBuffer ++ bytes).length then []
      else
        match (s.received id cl bytes).takeInput reserve id with
        | none => []
        | some (commands, t) => t.executed depth id commands
  | _ => []

/-- The requests that are executed in a run. -/
def history (reserve : Reserve) (depth : ℕ) : List Turn → Server S → List Request
  | [], _ => []
  | label :: labels, s =>
    label.executes reserve depth s ++
      match s.turn reserve depth label with
      | none => []
      | some t => history reserve depth labels t

/-- The loop of `processClientInput` over the first commands, in small steps. By induction on them. -/
theorem Interleaving.runCommands {rest : List RespValue} (commands : List RespValue) :
    ∀ {h : List Request} {s : Server S}, Interleaving reserve depth P h (some (id, commands ++ rest)) s →
    s.runCommands depth id commands = some t → (∀ g u, ∀ req ∈ s.executed depth id commands, P g u req) →
    ∃ rest', (rest = [] → rest' = []) ∧
      Interleaving reserve depth P (h ++ s.executed depth id commands) (some (id, rest')) t := by
  induction commands with
  | nil =>
    intro h s hs hrun _
    rw [executed, List.append_nil]
    exact ⟨rest, fun h => h, Option.some.inj hrun ▸ hs⟩
  | cons command commands ih =>
    intro h s hs hrun hP
    rw [executed] at hP ⊢
    rcases runCommands_cons hrun with ⟨hblocked, rfl⟩ | ⟨hfree, u, hu, hrest⟩
    · -- a client that is blocked runs no more of its commands
      rw [if_pos hblocked, List.append_nil]
      exact ⟨[], fun _ => rfl, hs.dropped hblocked⟩
    rw [hfree, if_neg Bool.false_ne_true, hu] at hP ⊢
    -- one command is executed, or taken as a reply
    have hu' : Interleaving reserve depth P (h ++ if s.Handshakes id then [] else [(id, command)])
        (some (id, u.remaining id (commands ++ rest))) u := by
      obtain ⟨cl, hcl, hu⟩ := Option.bind_eq_some_iff.mp hu
      -- a reply of the master is taken as such while the link is not up
      have hlink : s.Handshakes id ↔ cl.hasFlag .master ∧ s.replState ≠ .connected := by
        rw [Handshakes, clientHas, hcl]
        rfl
      split at hu
      · next hyes =>
        rw [if_pos (hlink.mpr hyes), List.append_nil]
        exact hs.handshake hfree (hlink.mpr hyes) hu
      · next hno =>
        have hexecuted : ¬s.Handshakes id := mt hlink.mp hno
        rw [if_neg hexecuted] at hP ⊢
        split at hu
        · cases hu
        · next program hprogram =>
          obtain ⟨⟨r, u'⟩, hran, rfl⟩ := Option.map_eq_some_iff.mp hu
          exact hs.command hfree hexecuted (hP h s _ List.mem_cons_self) hprogram hran
    rw [← List.append_assoc]
    rcases hrest with ⟨hclose, rfl⟩ | ⟨hopen, hrest⟩
    · rw [remaining, if_pos hclose] at hu'
      dsimp only
      rw [if_pos hclose, List.append_nil]
      exact ⟨[], fun _ => rfl, hu'⟩
    · rw [remaining, hopen, if_neg Bool.false_ne_true] at hu'
      dsimp only at hP ⊢
      rw [hopen, if_neg Bool.false_ne_true] at hP ⊢
      exact ih hu' hrest fun g w req hreq => hP g w req (List.mem_append_right _ hreq)

omit [Platform] [Double S] [Inhabited S] [LT S] [DecidableLT S] [BEq S] in
/-- What is handed on comes from the client that the callback reads from. -/
theorem Turn.reads_readable {i : ClientId} {bytes bytes' : Bytes} {cl : Client}
    (h : Turn.reads id s (.readable i (.data bytes)) = some (cl, bytes')) :
    i = id ∧ s.clients.lookup i = some cl ∧ bytes = bytes' := by
  replace h : (if i = id then (s.clients.lookup id).map (·, bytes) else none) = some (cl, bytes') := h
  split at h
  · next heq =>
    obtain ⟨cl', hcl, h⟩ := Option.map_eq_some_iff.mp h
    obtain ⟨rfl, rfl⟩ := Prod.mk.inj h
    exact ⟨heq, heq ▸ hcl, rfl⟩
  · cases h

/-- A callback, in small steps. -/
theorem Interleaving.turn {label : Turn} (hs : Interleaving reserve depth P h none s)
    (hturn : s.turn reserve depth label = some t)
    (hP : ∀ g u, ∀ req ∈ label.executes reserve depth s, P g u req) :
    Interleaving reserve depth P (h ++ label.executes reserve depth s) none t := by
  unfold Turn.executes at hP ⊢
  split at hP
  · next id bytes =>
    cases hcl : s.clients.lookup id with
    | none =>
      refine (List.append_nil h).symm ▸ hs.callback _ (fun i cl bytes' hreads => ?_) hturn
      exact absurd (hcl.symm.trans (Turn.reads_readable hreads).2.1) nofun
    | some cl =>
      rw [hcl] at hP
      dsimp only at hP ⊢
      split at hP
      · next hlong =>
        -- a query buffer that is too long closes the connection, and nothing is executed
        rw [if_pos hlong]
        refine (List.append_nil h).symm ▸ hs.callback _ (fun i cl' bytes' hreads => ?_) hturn
        obtain ⟨rfl, hcl', rfl⟩ := Turn.reads_readable hreads
        exact Option.some.inj (hcl.symm.trans hcl') ▸ hlong
      · next hfits =>
        -- the commands are run one after another
        replace hturn : s.onReadable reserve depth id (.data bytes) = some t := hturn
        unfold onReadable at hturn
        rw [hcl] at hturn
        dsimp only at hturn
        rw [if_neg hfits] at hturn ⊢
        obtain ⟨v, hv, rfl⟩ := Option.map_eq_some_iff.mp hturn
        obtain ⟨w, hw, hv⟩ := Option.bind_eq_some_iff.mp hv
        obtain ⟨⟨commands, u⟩, hu, hrun⟩ := Option.bind_eq_some_iff.mp hw
        obtain ⟨cl', hcl', rfl⟩ := Option.map_eq_some_iff.mp hv
        rw [hu] at hP ⊢
        have hread := hs.read hcl (not_lt.mp hfits) hu
        rw [← List.append_nil commands] at hread
        obtain ⟨rest', hnil, hran⟩ := hread.runCommands commands hrun hP
        rw [hnil rfl] at hran
        exact hran.answered hcl'
  · next hnone =>
    -- the other callbacks hand on nothing
    refine (List.append_nil h).symm ▸ hs.callback _ (fun i cl bytes hreads => ?_) hturn
    unfold Turn.reads at hreads
    split at hreads
    · next j bytes' => exact absurd rfl (hnone j bytes')
    · cases hreads

/-- **Callbacks one after another, in small steps.** By induction on the callbacks. -/
theorem Interleaving.run (labels : List Turn) : ∀ {h : List Request} {s : Server S},
    Interleaving reserve depth P h none s → s.run reserve depth labels = some t →
    (∀ g u, ∀ req ∈ s.history reserve depth labels, P g u req) →
    Interleaving reserve depth P (h ++ s.history reserve depth labels) none t := by
  induction labels with
  | nil =>
    intro h s hs hrun _
    rw [history, List.append_nil]
    exact Option.some.inj hrun ▸ hs
  | cons label labels ih =>
    intro h s hs hrun hP
    obtain ⟨u, hu, ht⟩ := Option.bind_eq_some_iff.mp hrun
    rw [history, hu] at hP ⊢
    rw [← List.append_assoc]
    exact ih (hs.turn hu fun g w req hreq => hP g w req (List.mem_append_left _ hreq)) ht
      fun g w req hreq => hP g w req (List.mem_append_right _ hreq)

/-- **Every state between callbacks is reached in small steps.** By induction on the callbacks. -/
theorem Reachable.interleaving (hs : Reachable reserve depth s) :
    ∃ h, Interleaving reserve depth (fun _ _ _ => True) h none s := by
  induction hs with
  | start hs => exact ⟨[], .start hs⟩
  | turn label _ hturn ih =>
    obtain ⟨h, hs⟩ := ih
    exact ⟨_, hs.turn hturn fun _ _ _ _ => trivial⟩

/-- The small steps are steps of callbacks. By induction on the run. -/
theorem Interleaving.moves (hs : Interleaving reserve depth P h m s) :
    ∃ start : Server S, start.Starts ∧ Moves start s ∧ s.reading = m.map Prod.fst := by
  induction hs with
  | start hs => exact ⟨_, hs, .refl, hs.reading⟩
  | callback label _ _ hturn ih =>
    obtain ⟨start, hstart, hmoves, hreading⟩ := ih
    obtain ⟨hmoves', hreading'⟩ := moves_of_turn hreading hturn
    exact ⟨start, hstart, hmoves.trans hmoves', hreading'⟩
  | read _ hcl _ hinput ih =>
    obtain ⟨start, hstart, hmoves, hreading⟩ := ih
    obtain ⟨hmoves', hreading'⟩ := moves_of_takeInput hinput
    exact ⟨start, hstart, (hmoves.trans (.received hreading hcl)).trans hmoves', hreading'⟩
  | @command _ _ _ id _ _ _ program _ _ _ _ _ hrun ih =>
    -- a command runs while its client is being read
    obtain ⟨start, hstart, hmoves, hreading⟩ := ih
    have hdoes : Advances _ _ := .does (by simpa using hreading) (program.within hrun)
    exact ⟨start, hstart, hmoves.trans hdoes.moves, hdoes.reading.trans hreading⟩
  | handshake _ _ _ hsync ih =>
    obtain ⟨start, hstart, hmoves, hreading⟩ := ih
    have hsynced := Advances.syncWithMaster hreading hsync
    exact ⟨start, hstart, hmoves.trans hsynced.moves, hsynced.reading.trans hreading⟩
  | dropped _ _ ih => exact ih
  | answered _ hcl ih =>
    obtain ⟨start, hstart, hmoves, hreading⟩ := ih
    exact ⟨start, hstart, hmoves.trans (.answered hreading hcl), rfl⟩

/-! ### What executes nothing is calm -/

section Callbacks

variable {W : ClientId → Prop} {B : ClientId → RespValue → Prop}

namespace Calm

omit [Platform] [Double S] [Inhabited S] [LT S] [DecidableLT S] [BEq S]

/-- A client that is made is blank, but for its flags, its output and the time. -/
theorem makeClient {f : Client → Client}
    (hf : ∀ now, Kin W B s s.nextClient {} (f { lastInteraction := now })) (s' : Server S)
    (hs' : s' = s) : Calm W B s' (s'.makeClient f).2 := by
  subst hs'
  exact client (.inr rfl) rfl (fun _ _ => .inl) (hf _) fun _ _ _ => .inl

theorem addClient (s : Server S) : Calm W B s s.addClient := by
  unfold Server.addClient
  split
  · exact refl s
  · exact makeClient (fun _ => .same rfl rfl (fun h => h) rfl) s rfl

theorem connectToMaster (s : Server S) : Calm W B s s.connectToMaster := by
  unfold Server.connectToMaster
  dsimp only
  split
  · exact of_eq rfl rfl rfl
  · refine client (.inr rfl) rfl (fun _ _ => .inl) (.same rfl rfl (fun hdirty => ?_) rfl)
      fun i cmd left hmem => .inl (blocksNobody_note rfl _ i cmd left hmem)
    rwa [Client.hasFlag_addReply, Client.hasFlag_setFlag, if_neg (by decide)] at hdirty

/-- By induction on the clients. -/
theorem closeClients (ids : List ClientId) : ∀ {s t : Server S},
    s.closeClients ids = some t → Calm W B s t := by
  induction ids with
  | nil => exact fun h => Option.some.inj h ▸ refl _
  | cons id ids ih =>
    intro s t h
    obtain ⟨u, hu, ht⟩ := Option.bind_eq_some_iff.mp h
    exact (removeClient hu).trans (ih ht)

theorem timeOut (h : s.timeOut id = some t) : Calm W B s t := by
  obtain ⟨cl, hcl, h⟩ := Option.bind_eq_some_iff.mp h
  split at h
  · obtain ⟨u, hu, h⟩ := Option.bind_eq_some_iff.mp h
    obtain ⟨v, hv, rfl⟩ := Option.map_eq_some_iff.mp hu
    have hreplied : Calm W B s v := updateClient (f := (·.addReply nullArray))
      (fun _ => .same rfl rfl (fun h => h) rfl) hv
    exact hreplied.trans ((note rfl v).trans (unblockClient h))
  · exact Option.some.inj h ▸ refl s

/-- By induction on the clients. -/
theorem timeOutAll (ids : List ClientId) : ∀ {s t : Server S}, s.timeOutAll ids = some t → Calm W B s t := by
  induction ids with
  | nil => exact fun h => Option.some.inj h ▸ refl _
  | cons id ids ih =>
    intro s t h
    obtain ⟨u, hu, ht⟩ := Option.bind_eq_some_iff.mp h
    exact (timeOut hu).trans (ih ht)

theorem cronFlush (s : Server S) : Calm W B s s.cronFlush := by
  have hflush (s : Server S) : s.flushAof.clients = s.clients ∧ s.flushAof.databases = s.databases ∧
      s.flushAof.trace = s.trace := by
    unfold flushAof
    split
    · split <;> exact ⟨rfl, rfl, rfl⟩
    · exact ⟨rfl, rfl, rfl⟩
  unfold Server.cronFlush
  split
  · dsimp only
    split
    · obtain ⟨hclients, hdatabases, htrace⟩ := hflush s.steadyNow.2
      exact of_eq hclients hdatabases htrace
    · exact of_eq rfl rfl rfl
  · exact refl s

theorem serverCron [Platform] (h : s.serverCron = some t) : Calm W B s t := by
  obtain ⟨⟨r, u⟩, hu, h⟩ := Option.bind_eq_some_iff.mp h
  obtain ⟨v, hv, h⟩ := Option.bind_eq_some_iff.mp h
  obtain ⟨ids, -, h⟩ := Option.bind_eq_some_iff.mp h
  obtain ⟨w, hw, rfl⟩ := Option.map_eq_some_iff.mp h
  -- the parts of the tick one after the other: expired keys, idle clients, the file, the clients whose time
  -- is up, the link
  have hexpire : (expireAll : EffectM S none none Exn Unit).Keeps (Calm W B s) :=
    .bind (.read _) fun _ => .forM _ fun _ _ => .bind (calm_onDatabaseAt _ _) fun _ => .pure _
  have hidle : Calm W B u v := by
    split at hv
    · unfold closeIdleClients at hv
      split at hv
      · exact Option.some.inj hv ▸ refl u
      · have hread : Calm W B u u.steadyNow.2 := of_eq rfl rfl rfl
        exact hread.trans (closeClients _ hv)
    · exact Option.some.inj hv ▸ refl u
  have hlink : Calm W B w w.replicationCron := by
    unfold replicationCron
    split
    · exact connectToMaster w
    · exact refl w
  have hran : Calm W B s u := by
    refine hexpire _ ?_ r u hu
    exact of_eq rfl rfl rfl
  exact (hran.trans hidle).trans
    (((cronFlush v).trans (timeOutAll ids hw)).trans hlink)

/-- A change of what is sent and received. -/
theorem sent {cl cl' : Client} (hcl : s.clients.lookup id = some cl) (hrecord : cl'.record = cl.record)
    (hflags : cl'.flags = cl.flags) (hqueue : cl'.transactionQueue = cl.transactionQueue) :
    Calm W B s { s with clients := s.clients.insert id cl' } := by
  refine client (.inl hcl) rfl (fun _ _ => .inl) (.same ?_ ?_ (fun h => ?_) hqueue) fun _ _ _ => .inl
  · exact congrArg Record.blockCmd hrecord
  · exact congrArg Record.watchedKeys hrecord
  · rwa [Client.hasFlag, hflags] at h

theorem onWritable {answer : WriteResult} (h : s.onWritable id answer = some t) : Calm W B s t := by
  unfold Server.onWritable at h
  split at h
  · exact Option.some.inj h ▸ refl s
  · next cl hcl =>
    -- what the socket takes is taken out of the client's buffers
    have hsent : ∃ written, (if cl.hasPendingOutput then answer.apply cl else cl) = written ∧
        Calm W B s { s with clients := s.clients.insert id written } := by
      split
      · refine ⟨_, rfl, sent hcl (answer.record_apply cl) (funext (answer.hasFlag_apply cl)) ?_⟩
        cases answer with
        | wrote n =>
          dsimp only [WriteResult.apply]
          split <;> rfl
        | wouldBlock | failed => rfl
      · exact ⟨_, rfl, sent hcl rfl rfl rfl⟩
    obtain ⟨written, hwritten, hsent⟩ := hsent
    dsimp only at h
    rw [hwritten] at h
    split at h
    · exact hsent.trans (removeClient h)
    · split at h
      · exact Option.some.inj h ▸ hsent
      · have hhandler : Calm W B s (removeWriteHandler id { s with clients := s.clients.insert id written }) :=
          hsent.trans (of_eq rfl rfl rfl)
        split at h
        · exact hhandler.trans (removeClient h)
        · exact Option.some.inj h ▸ hhandler

theorem received {cl : Client} {bytes : Bytes} (hcl : s.clients.lookup id = some cl) :
    Calm W B s (s.received id cl bytes) :=
  client (.inl hcl) rfl (fun _ _ => .inl) (.same rfl rfl (fun h => h) rfl) fun _ _ _ => .inl

theorem takeInput {commands : List RespValue} (h : s.takeInput reserve id = some (commands, t)) :
    Calm W B s t := by
  obtain ⟨cl, hcl, h⟩ := Option.bind_eq_some_iff.mp h
  split at h
  · cases h
  · next result _ =>
    obtain ⟨u, hu, heq⟩ := Option.map_eq_some_iff.mp h
    obtain ⟨-, rfl⟩ := Prod.mk.inj heq
    refine updateClient (fun cl => ?_) hu
    split <;> exact .same rfl rfl (fun h => h) rfl

end Calm

/-- **A callback that hands nothing on is calm.** -/
theorem Calm.turn {label : Turn} (hnothing : label.HandsOnNothing s)
    (h : s.turn reserve depth label = some t) : Calm W B s t := by
  cases label with
  | accept => exact Option.some.inj h ▸ .addClient s
  | writable id answer => exact .onWritable h
  | cron => exact .serverCron h
  | readable id answer =>
    replace h : s.onReadable reserve depth id answer = some t := h
    unfold onReadable at h
    split at h
    · exact Option.some.inj h ▸ .refl s
    · next cl hcl =>
      split at h
      · exact Option.some.inj h ▸ .refl s
      · exact .removeClient h
      · next bytes =>
        -- a read that hands on nothing is one after which the client is closed for its long input
        have hlong : maxInputBuffer < (cl.inputBuffer ++ bytes).length :=
          hnothing id cl bytes (by rw [Turn.reads, if_pos rfl, hcl]; rfl)
        rw [if_pos hlong] at h
        obtain ⟨u, hu, rfl⟩ := Option.map_eq_some_iff.mp h
        exact ((Calm.received hcl).trans (.removeClient hu)).trans (.of_eq rfl rfl rfl)

/-- So is a reply of the master. What the handshake sends to the link marks nobody, and a database that is received is
loaded without flags. -/
theorem Calm.syncWithMaster {reply : RespValue} (h : s.syncWithMaster id reply = some t) : Calm W B s t := by
  -- the next message of the handshake is sent
  have hreply {data : Bytes} {replState : ReplState}
      (h : ((s.addReply id data).map fun s => { s with replState := replState }) = some t) : Calm W B s t := by
    obtain ⟨u, hu, rfl⟩ := Option.map_eq_some_iff.mp h
    exact (Calm.addReply hu).trans (.of_eq rfl rfl rfl)
  -- the file is loaded: watched keys that the databases still list stay listed
  have hrdb {contents : Bytes} (h : s.receiveRdb contents = some t) : Calm W B s t := by
    unfold receiveRdb at h
    have hopen : Calm W B s s.openFile.2 := .of_eq rfl rfl rfl
    dsimp only at h
    split at h
    · exact hopen.trans (.disconnectFromMaster h)
    · split at h
      · cases h
      · next loaded databases env hload =>
        obtain ⟨u, hu, h⟩ := Option.bind_eq_some_iff.mp h
        refine (hopen.trans (.putDatabases (Rdb.watchersKept_loadFromFile hload) hu)).trans ?_
        split at h
        · exact Option.some.inj h ▸ .of_eq rfl rfl rfl
        · exact .disconnectFromMaster h
  unfold Server.syncWithMaster at h
  split at h
  · cases h
  · split at h
    · split at h
      · exact hreply h
      · exact .disconnectFromMaster h
    · split at h
      · exact hreply h
      · exact .disconnectFromMaster h
    · split at h
      · exact Option.some.inj h ▸ .of_eq rfl rfl rfl
      · split at h
        · exact Option.some.inj h ▸ .of_eq rfl rfl rfl
        · exact .disconnectFromMaster h
    · split at h
      · exact hrdb h
      · exact hrdb h
      · exact .disconnectFromMaster h
    · exact Option.some.inj h ▸ .refl s

omit [Platform] [Double S] [Inhabited S] [LT S] [DecidableLT S] [BEq S] in
theorem Calm.answered (cl : Client) (s : Server S) :
    Calm W B s { (if cl.hasPendingOutput then s.installWriteHandler id else s) with reading := none } := by
  split
  · exact (Calm.installWriteHandler id s).trans (.of_eq rfl rfl rfl)
  · exact .of_eq rfl rfl rfl

end Callbacks

/-! ### Who waits -/

/-- **Clients wait with blocking pops**, in every run. By induction on the run. -/
theorem Interleaving.popsWait (hs : Interleaving reserve depth P h m s) : s.PopsWait := by
  induction hs with
  | @start s hs =>
    intro i cl hcl
    rw [hs.clients, UnorderedMap.lookup_empty] at hcl
    cases hcl
  | callback label _ hnothing hturn ih =>
    -- callbacks other than reads are calm
    exact (Calm.turn (W := fun _ => True) (B := fun _ _ => True) hnothing hturn).pops ih
  | read _ hcl _ hinput ih =>
    have hcalm := (Calm.received (W := fun _ => True) (B := fun _ _ => True) hcl).trans (.takeInput hinput)
    exact hcalm.pops ih
  | command _ _ _ _ hprogram hrun ih =>
    have hcalm : Calm (fun _ => True) (fun _ _ => True) _ _ :=
      .of_run ih (issued_trivial _) trivial (fun _ => trivial) (fun _ hno => absurd trivial hno) hprogram hrun
    exact hcalm.pops ih
  | handshake _ _ _ hsync ih => exact (Calm.syncWithMaster (W := fun _ => True) (B := fun _ _ => True) hsync).pops ih
  | dropped _ _ ih => exact ih
  | answered _ _ ih => exact (Calm.answered (W := fun _ => True) (B := fun _ _ => True) _ _).pops ih

theorem Visited.popsWait (hs : Visited reserve depth s) : s.PopsWait := by
  cases hs with
  | callback hs =>
    obtain ⟨h, hs⟩ := hs.interleaving
    exact hs.popsWait
  | @command _ _ _ _ _ _ commands n hs hcl hfits hinput hrun =>
    obtain ⟨h, hs⟩ := hs.interleaving
    have hread := hs.read hcl hfits hinput
    rw [← List.take_append_drop n commands] at hread
    obtain ⟨rest, -, hran⟩ := hread.runCommands _ hrun fun _ _ _ _ => trivial
    exact hran.popsWait

end Server

end RedisDb
