import RedisDb.Server.Interleavings

/-!
# Aborts without a watch

`EXEC` gives up a transaction whose client is marked. A client is marked where a key that it watches is
written to, so one that has issued no `WATCH` since it stopped watching should never be. But only
`DISCARD` and `UNWATCH` take a client out of the tables of watchers. `EXEC` clears the mark and the queue,
and leaves the client in the tables: a write before its next transaction marks it again
(`aborts_after_exec`).

A client whose last `EXEC`, `DISCARD` or `UNWATCH` has left nothing behind has its next transaction run, whatever
other clients do in between (`exec_runs_queue`). The invariant is that it is in no table of watchers, watches
nothing itself, and is not marked (`Unwatching`). Every step keeps it but a `WATCH` of the client and an `EXEC` with one
in its queue (`Calm`), since only what is in the tables gets marked.
-/

namespace RedisDb

open RespSerializer EffectM

variable {S : Type}

/-- Whether a client watches by its own requests, as far as their names say. -/
def RespValue.watchesAfter (v : RespValue) (watching : Bool) : Bool :=
  match v.named with
  | some .watch => true
  | some .exec | some .discard | some .unwatch => false
  | _ => watching

/-- A command that is to end the watching of its client. -/
def RespValue.endsWatching (v : RespValue) : Bool :=
  match v.named with
  | some .exec | some .discard | some .unwatch => true
  | _ => false

namespace Server

/-- No request is to end the watching of a client. -/
def NoneEnds (c : ClientId) (rest : List Request) : Prop := ∀ req ∈ rest, req.1 = c → req.2.endsWatching = false

/-- Of the requests of a client that are to end its watching, this one is the last in a history. -/
def IsLastEnd (c : ClientId) (h before : List Request) (req : Request) : Prop :=
  ∃ rest, h = before ++ req :: rest ∧ NoneEnds c rest

/-- A client has issued a `WATCH` since its last `EXEC`, `DISCARD` or `UNWATCH`. -/
def watches (c : ClientId) (h : List Request) : Bool :=
  h.foldl (fun watching req => if req.1 = c then req.2.watchesAfter watching else watching) false

theorem watches_concat (c : ClientId) (h : List Request) (req : Request) :
    watches c (h ++ [req]) = if req.1 = c then req.2.watchesAfter (watches c h) else watches c h := by
  rw [watches, List.foldl_append]
  rfl

/-- A request without arguments is run by its handler, and not put into a queue. -/
def RunsNow (c : ClientId) (v : RespValue) (s : Server S) : Prop :=
  ∃ name cmdName, v = .array [name] ∧ name.asString = .ok cmdName ∧
    (s.clientHas c .multi = true → runsInMulti cmdName = true)

/-- A request that is to end the watching of its client leaves nothing of it: it is an `UNWATCH` that is
run, or a `DISCARD` in a transaction, or there is nothing to leave. -/
def EndsWatching (c : ClientId) (v : RespValue) (s : Server S) : Prop :=
  match v.named with
  | some .exec => s.Unwatching c ∧ s.QueuesNoWatch c
  | some .discard => s.Unwatching c ∨ s.RunsNow c v ∧ s.clientHas c .multi = true
  | some .unwatch => s.Unwatching c ∨ s.RunsNow c v
  | _ => True

/-- `EXEC` up to the loop over the queue. -/
def beginExec (c : ClientId) (cl : Client) (s : Server S) : Option (Server S) :=
  (s.updateClient c (·.clearTransaction)).bind (addReply c (arrayHeader cl.transactionQueue.length))

section Runs

variable [Platform] [Double S] [Inhabited S] [LT S] [DecidableLT S] [BEq S]

/-- `EXEC` from the loop over the queue on. -/
def finishExec {name : RespValue} (hname : name.IsString) (callbacks : Callbacks S) (c : ClientId)
    (queue : List (List RespValue)) : CommandM S c (.array [name]) :=
  let body : EffectM S (some (.array [name])) (some c) Exn Unit := do
    (forM queue (callbacks.runQueued c) : ServerM S c Unit).lift fun _ _ => .handler
    incrementCommandsProcessed
    ⟨Server.complete c false [name], fun h => .completed hname h⟩
  body.handle fun e => EffectM.addReply (internalError e)

/-- An `EXEC` of a client that is in a transaction runs the queue. -/
def RunsQueue (depth : ℕ) (c : ClientId) (s : Server S) : Prop :=
  ∀ cl, s.clients.lookup c = some cl → cl.hasFlag .multi = true →
    ∀ (name : RespValue) (hname : name.asString = .ok (str "EXEC")), ∃ u, s.beginExec c cl = some u ∧
      (executeNamed (c := c) (callbacks depth) hname []).run s
        = (finishExec (.of_asString hname) (callbacks depth) c cl.transactionQueue).run u

variable {reserve : Reserve} {depth : ℕ} {s t u : Server S} {c : ClientId} {cl : Client} {name : RespValue}

/-! ### `EXEC` -/

omit [Platform] [Double S] [Inhabited S] [LT S] [DecidableLT S] [BEq S] in
theorem nullArray_ne_arrayHeader (n : ℕ) : nullArray ≠ arrayHeader n := by
  intro h
  have hminus : (45 : UInt8) ∈ toText n := by
    have htail : (45 : UInt8) :: str "1\r\n" = toText n ++ CRLF := (List.cons.inj h).2
    cases hn : toText n with
    | nil =>
      rw [hn] at htail
      exact absurd (List.cons.inj htail).1 (by decide)
    | cons b rest =>
      rw [hn, List.cons_append] at htail
      rw [(List.cons.inj htail).1]
      exact List.mem_cons_self
  have hdigits : toText (n : ℤ) = Decimal.natText n := by
    rw [toText, Decimal.intText, if_neg (by omega), Int.natAbs_natCast]
  rw [hdigits] at hminus
  exact absurd (Decimal.isDigit_of_mem_natText hminus) (by decide)

section Exec

omit [Double S] [Inhabited S] [LT S] [DecidableLT S] [BEq S]

variable (runQueued : Handler S) {k : Option RespValue} {o : Option ClientId} {ε α β : Type}

omit [Platform] in
/-- Where a client is there, it can be changed and replied to. -/
theorem exists_update_reply (f : Client → Client) (data : Bytes) (hcl : s.clients.lookup c = some cl) :
    ∃ v u, s.updateClient c f = some v ∧ v.addReply c data = some u ∧
      u.trace = s.trace ++ [.reply c data] := by
  have hv : s.updateClient c f = some { s with clients := s.clients.insert c (f cl) } := by
    rw [updateClient, hcl]
    rfl
  obtain ⟨u, hu, htrace⟩ : ∃ u,
      Server.addReply c data { s with clients := s.clients.insert c (f cl) } = some u ∧
      u.trace = s.trace ++ [.reply c data] := by
    rw [Server.addReply, updateClient, AList.lookup_insert]
    exact ⟨_, rfl, rfl⟩
  exact ⟨_, u, hv, hu, htrace⟩

omit [Platform] in
theorem trace_beginExec (hcl : s.clients.lookup c = some cl) (h : s.beginExec c cl = some u) :
    u.trace = s.trace ++ [.reply c (arrayHeader cl.transactionQueue.length)] := by
  obtain ⟨v, u', hv, hu, htrace⟩ := exists_update_reply (·.clearTransaction)
    (arrayHeader cl.transactionQueue.length) hcl
  rw [beginExec, hv, Option.bind_some, hu] at h
  exact Option.some.inj h ▸ htrace

/-- The handler runs the queue of a client that is not marked. -/
theorem execCommand_run (args : List RespValue) (hcl : s.clients.lookup c = some cl)
    (hmulti : cl.hasFlag .multi = true) (hclean : cl.hasFlag .dirtyExec = false) :
    ∃ u, s.beginExec c cl = some u ∧
      u.trace = s.trace ++ [.reply c (arrayHeader cl.transactionQueue.length)] ∧
      (execCommand runQueued c args).run s = (forM cl.transactionQueue (runQueued c) : ServerM S c Unit).run u := by
  obtain ⟨v, u, hv, hu, htrace⟩ := exists_update_reply (·.clearTransaction)
    (arrayHeader cl.transactionQueue.length) hcl
  refine ⟨u, by rw [beginExec, hv]; exact hu, htrace, ?_⟩
  rw [execCommand, Program.run_bind_ok (run_client hcl), hmulti, Bool.not_true, if_neg Bool.false_ne_true]
  refine (Program.run_bind_ok (run_call_some hv) _).trans ?_
  rw [hclean, if_neg Bool.false_ne_true]
  exact Program.run_bind_ok (run_call_some hu) _

/-- It gives up the transaction of one that is. -/
theorem execCommand_run_of_dirtyExec (args : List RespValue) (hcl : s.clients.lookup c = some cl)
    (hmulti : cl.hasFlag .multi = true) (hdirty : cl.hasFlag .dirtyExec = true) :
    ∃ u, (execCommand runQueued c args).run s = some (.ok (), u) ∧
      u.trace = s.trace ++ [.reply c nullArray] := by
  obtain ⟨v, u, hv, hu, htrace⟩ := exists_update_reply (·.clearTransaction) nullArray hcl
  refine ⟨u, ?_, htrace⟩
  rw [execCommand, Program.run_bind_ok (run_client hcl), hmulti, Bool.not_true, if_neg Bool.false_ne_true]
  refine (Program.run_bind_ok (run_call_some hv) _).trans ?_
  rw [hdirty, if_pos rfl]
  exact run_call_some hu

end Exec

/-- An `EXEC` is run by its handler. -/
theorem executeNamed_exec (cb : Callbacks S) (hname : name.asString = .ok (str "EXEC"))
    (hcl : s.clients.lookup c = some cl) : (executeNamed (c := c) cb hname []).run s
      = (runHandler (c := c) cb .exec ⟨_, hname⟩ []).run s :=
  Robust.executeNamed_run hname (by decide +kernel) (by decide) (by decide) hcl fun _ => by decide +kernel

/-- After its handler an `EXEC` only counts and notes what it has done. -/
theorem runHandler_exec {cb : Callbacks S} (hname : name.IsString) (args : List RespValue) :
    (runHandler (c := c) cb .exec hname args).run s = match (execCommand cb.runQueued c (name :: args)).run s with
      | none => none
      | some (.ok _, t) => some (.ok (), { t with
          totalCommandsProcessed := t.totalCommandsProcessed + 1 }.note (.completed false (name :: args)))
      | some (.error e, t) => (EffectM.addReply (internalError e) : CommandM S c (.array (name :: args))).run t := by
  have hhandler : Command.exec.handler cb c (name :: args) = execCommand cb.runQueued c (name :: args) := rfl
  unfold runHandler
  rw [Program.run_handle, Program.run_bind, Program.run_lift, hhandler]
  rcases (execCommand cb.runQueued c (name :: args)).run s with _ | ⟨_ | _, t⟩ <;> rfl

/-- **An `EXEC` runs the queue exactly if its client is not marked.** -/
theorem runsQueue_iff (hcl : s.clients.lookup c = some cl) (hmulti : cl.hasFlag .multi = true) :
    s.RunsQueue depth c ↔ cl.hasFlag .dirtyExec = false := by
  constructor
  · intro hruns
    by_contra hdirty
    -- the reply to a client that is marked is another
    replace hdirty : cl.hasFlag .dirtyExec = true := by simpa using hdirty
    have hname : (RespValue.bulkString (str "EXEC")).asString = .ok (str "EXEC") := rfl
    obtain ⟨u, hbegin, hsame⟩ := hruns cl hcl hmulti _ hname
    obtain ⟨v, hv, hnull⟩ := execCommand_run_of_dirtyExec (callbacks depth).runQueued
      [.bulkString (str "EXEC")] hcl hmulti hdirty
    have hexec := (executeNamed_exec (callbacks depth) hname hcl).trans (runHandler_exec ⟨_, hname⟩ [])
    rw [hv] at hexec
    -- what follows an array header is appended to the trace
    have hfinish := (finishExec ⟨_, hname⟩ (callbacks depth) c cl.transactionQueue).within (hsame.symm.trans hexec)
    have hgrows := hfinish.grows.trace
    rw [trace_beginExec hcl hbegin, note, hnull, List.append_assoc] at hgrows
    have hfirst := (List.cons_prefix_cons.mp ((List.prefix_append_right_inj s.trace).mp hgrows)).1
    exact nullArray_ne_arrayHeader _ (Event.reply.inj hfirst).2.symm
  · intro hclean cl' hcl' _ name hname
    obtain rfl := Option.some.inj (hcl.symm.trans hcl')
    obtain ⟨u, hbegin, -, hrun⟩ := execCommand_run (callbacks depth).runQueued [name] hcl hmulti hclean
    refine ⟨u, hbegin, ((executeNamed_exec _ hname hcl).trans (runHandler_exec ⟨_, hname⟩ [])).trans ?_⟩
    rw [hrun, finishExec, Program.run_handle, Program.run_bind, Program.run_lift]
    rcases (forM cl.transactionQueue ((callbacks depth).runQueued c) : ServerM S c Unit).run u
      with _ | ⟨_ | _, t⟩ <;> rfl

/-! ### `UNWATCH` and `DISCARD` -/

omit [Platform] [Double S] [Inhabited S] [LT S] [DecidableLT S] [BEq S] in
theorem robust_unwatching (c : ClientId) : Robust (S := S) (Unwatching c) :=
  .of_steps (fun _ => robust_calm) Calm.refl fun _ _ h => h.unwatching (W := fun _ => False) (B := fun _ _ => True) c id

/-- The tables of watchers have a client at no key but those of its own set. -/
def WatchesOwn (c : ClientId) (s : Server S) : Prop :=
  ∀ key, Watched s.tables.watchedKeys c key → ∃ cl, s.clients.lookup c = some cl ∧ key ∈ cl.watchedKeys

theorem Interleaving.watchesOwn {P : List Request → Server S → Request → Prop} {h : List Request}
    {m : Option (ClientId × List RespValue)} (hs : Interleaving reserve depth P h m s) : s.WatchesOwn c := by
  obtain ⟨start, hstart, hmoves, -⟩ := hs.moves
  have hconsistent : s.Consistent fun ref => ∃ key, ref = .watched key := by
    refine hmoves.consistent (fun e _ => ?_) hstart.consistent
    cases e with
    | attached id again => rintro ⟨key, hkey⟩; cases hkey
    | blocked id left => rintro key - ⟨key', hkey'⟩; cases hkey'
    | _ => trivial
  exact fun key hkey => owns_of_refers hconsistent.agree ⟨key, rfl⟩ hkey

section Retire

omit [Double S] [Inhabited S] [LT S] [DecidableLT S] [BEq S] [Platform]

/-- A client that is taken out of the tables at the keys of its set is in none. -/
theorem WatchesOwn.unwatch (hs : s.WatchesOwn c) (h : s.unwatch c = some t) :
    (∀ key, ¬Watched t.tables.watchedKeys c key) ∧
      ∀ cl, t.clients.lookup c = some cl → cl.watchedKeys = ∅ := by
  refine ⟨fun key hkey => ?_, fun cl hcl => ?_⟩
  · obtain ⟨hwatched, hne⟩ := watched_unwatch h hkey
    obtain ⟨cl, hcl, hown⟩ := hs key hwatched
    exact hne cl hcl hown rfl
  · obtain ⟨cl', hcl', rfl⟩ := Option.map_eq_some_iff.mp h
    rw [AList.lookup_insert] at hcl
    exact Option.some.inj hcl ▸ rfl

/-- What leaves the tables and clears the mark of a client leaves nothing of its watching. -/
theorem WatchesOwn.unwatching {f : Client → Client} (hs : s.WatchesOwn c) (h : s.unwatch c = some t)
    (hu : t.updateClient c f = some u) (hkeys : ∀ cl, (f cl).watchedKeys = cl.watchedKeys)
    (hclean : ∀ cl, (f cl).hasFlag .dirtyExec = false) : u.Unwatching c := by
  obtain ⟨hleft, hempty⟩ := hs.unwatch h
  obtain ⟨cl, hcl, rfl⟩ := Option.map_eq_some_iff.mp hu
  refine ⟨hleft, fun cl' hcl' => ?_⟩
  rw [AList.lookup_insert] at hcl'
  obtain rfl := Option.some.inj hcl'
  exact ⟨(hkeys cl).trans (hempty cl hcl), hclean cl⟩

variable [Platform] (args : List RespValue)

theorem unwatching_unwatchCommand (hs : s.WatchesOwn c) :
    (unwatchCommand c args : ServerM S c Unit).Post s fun _ t => t.Unwatching c := by
  refine (Program.post_bind _ _ _ _).mpr ((post_call _ _).mpr fun t ht => ?_)
  refine (Program.post_bind _ _ _ _).mpr ((post_call _ _).mpr fun u hu => ?_)
  refine (robust_unwatching c).keeps_addReply _ u (hs.unwatching ht hu (fun _ => rfl) fun cl => ?_)
  rw [Client.hasFlag_clearFlag, if_pos rfl]

theorem unwatching_discardCommand (hs : s.WatchesOwn c) (hmulti : s.clientHas c .multi = true) :
    (discardCommand c args : ServerM S c Unit).Post s fun _ t => t.Unwatching c := by
  refine (Program.post_bind _ _ _ _).mpr ((post_client _ _).mpr fun cl hcl => ?_)
  have hflag : cl.hasFlag .multi = true := by rwa [clientHas, hcl] at hmulti
  dsimp only
  rw [hflag, Bool.not_true, if_neg Bool.false_ne_true]
  refine (Program.post_bind _ _ _ _).mpr ((post_call _ _).mpr fun t ht => ?_)
  refine (Program.post_bind _ _ _ _).mpr ((post_call _ _).mpr fun u hu => ?_)
  refine (robust_unwatching c).keeps_addReply _ u (hs.unwatching ht hu (fun _ => rfl) fun cl => ?_)
  rw [Client.hasFlag_clearTransaction, if_pos (Or.inr rfl)]

end Retire

/-- **An `UNWATCH` that is run, and a `DISCARD` in a transaction, leave nothing of the watching.** -/
theorem RunsNow.unwatching {v : RespValue} {program : CommandM S c v} {r : Except Empty Unit}
    (hpops : s.PopsWait) (hs : s.WatchesOwn c) (hnow : s.RunsNow c v)
    (hcmd : v.named = some .unwatch ∨ v.named = some .discard ∧ s.clientHas c .multi = true)
    (h : executeCommand (callbacks depth) c v = .ok program) (hrun : program.run s = some (r, t)) :
    t.Unwatching c := by
  cases hcl : s.clients.lookup c with
  | none =>
    -- a client that is not there is in no table
    have hno : s.Unwatching c := by
      refine ⟨fun key hkey => ?_, fun cl hcl' => absurd (hcl.symm.trans hcl') nofun⟩
      obtain ⟨cl, hcl', -⟩ := hs key hkey
      exact absurd (hcl.symm.trans hcl') nofun
    have hcalm : Calm (fun _ => False) (fun _ _ => True) s t := Calm.of_run hpops (issued_trivial s) trivial
      (fun hwatch => by rcases hcmd with hcmd | ⟨hcmd, -⟩ <;> exact absurd (hwatch.symm.trans hcmd) nofun)
      (fun hexec => by rcases hcmd with hcmd | ⟨hcmd, -⟩ <;> exact absurd (hexec.symm.trans hcmd) nofun) h hrun
    exact hcalm.unwatching c id hno
  | some cl =>
    -- the client is there, and its `UNWATCH` or `DISCARD` is executed and not queued
    obtain ⟨name, cmdName, rfl, hname, hnow⟩ := hnow
    rw [RespValue.named_of_name hname] at hcmd
    rw [executeCommand_of_name hname] at h
    obtain rfl := Except.ok.inj h
    have hrobust := robust_unwatching (S := S) c
    have hlog (args : List RespValue) (s : Server S) (r) (t) (hlog : s.complete c false args = some (r, t))
        (hs : s.Unwatching c) : t.Unwatching c :=
      (Calm.complete (W := fun _ => False) (B := fun _ _ => True) hlog).unwatching c id hs
    have hmulti : s.clientHas c .multi = cl.hasFlag .multi := by rw [clientHas, hcl]; rfl
    rcases hcmd with hcmd | ⟨hcmd, hin⟩
    · rw [Robust.executeNamed_run hname hcmd (by decide) (by decide) hcl (hmulti ▸ hnow)] at hrun
      have hhandler : (Command.unwatch.handler (callbacks depth) c [name]).Post s fun _ t => t.Unwatching c :=
        unwatching_unwatchCommand [name] hs
      exact hrobust.post_runHandler ⟨_, hname⟩ hhandler (hlog _) r t hrun
    · rw [Robust.executeNamed_run hname hcmd (by decide) (by decide) hcl (hmulti ▸ hnow)] at hrun
      have hhandler : (Command.discard.handler (callbacks depth) c [name]).Post s fun _ t => t.Unwatching c :=
        unwatching_discardCommand [name] hs hin
      exact hrobust.post_runHandler ⟨_, hname⟩ hhandler (hlog _) r t hrun

/-! ### Runs -/

/-- After a request of its own too a client watches nothing, unless the request has it watch. An `EXEC`, a `DISCARD`
or an `UNWATCH` that ends it leaves nothing; any other request keeps what has been so before. -/
theorem EndsWatching.unwatching {v : RespValue} {program : CommandM S c v} {r : Except Empty Unit} {watching : Bool}
    (hends : s.EndsWatching c v) (hpops : s.PopsWait) (hown : s.WatchesOwn c)
    (hs : v.endsWatching = false → watching = false → s.Unwatching c)
    (h : executeCommand (callbacks depth) c v = .ok program)
    (hrun : program.run s = some (r, t)) : v.watchesAfter watching = false → t.Unwatching c := by
  intro hno
  -- a command other than `WATCH` adds no watch of this client
  have hcalm (hwatch : v.named ≠ some .watch) (hqueue : v.named = some .exec → s.QueuesNoWatch c)
      (hs : s.Unwatching c) : t.Unwatching c := by
    have hcalm : Calm (fun _ => False) (fun _ _ => True) s t :=
      .of_run hpops (issued_trivial s) trivial (fun heq => absurd heq hwatch) (fun hexec _ => hqueue hexec) h hrun
    exact hcalm.unwatching c id hs
  unfold RespValue.watchesAfter at hno
  unfold EndsWatching at hends
  split at hends
  · -- after `EXEC` the client has no watch if it had none before, and its queue holds no `WATCH`
    next hexec => exact hcalm (by rw [hexec]; nofun) (fun _ => hends.2) hends.1
  · next hdiscard =>
    -- `DISCARD` and `UNWATCH`: there was no watch before, or they have taken it away
    rcases hends with hs | ⟨hnow, hin⟩
    · exact hcalm (by rw [hdiscard]; nofun) (by rw [hdiscard]; nofun) hs
    · exact hnow.unwatching hpops hown (.inr ⟨hdiscard, hin⟩) h hrun
  · next hunwatch =>
    rcases hends with hs | hnow
    · exact hcalm (by rw [hunwatch]; nofun) (by rw [hunwatch]; nofun) hs
    · exact hnow.unwatching hpops hown (.inl hunwatch) h hrun
  · next hexec hdiscard hunwatch =>
    split at hno
    · cases hno
    · next h' => exact absurd h' hexec
    · next h' => exact absurd h' hdiscard
    · next h' => exact absurd h' hunwatch
    · next hwatch _ _ _ =>
      -- the other commands neither end a watch nor start one
      have hnone : v.endsWatching = false := by
        unfold RespValue.endsWatching
        split
        · next heq => exact absurd heq hexec
        · next heq => exact absurd heq hdiscard
        · next heq => exact absurd heq hunwatch
        · rfl
      exact hcalm hwatch (fun hexec' => absurd hexec' hexec) (hs hnone hno)

/-- A client that has not watched does not, if the last of its requests that were to end its watching has ended it. By
induction on the run: a request of another client is calm, and so is one of the client itself but for a `WATCH`. Before
that last request nothing is known; it makes up for all that went before. -/
theorem Interleaving.unwatching {h₀ h : List Request} {m : Option (ClientId × List RespValue)}
    (hs : Interleaving reserve depth
      (fun before s req => req.1 = c → IsLastEnd c h₀ before req → s.EndsWatching c req.2) h m s) :
    ∀ rest, h₀ = h ++ rest → NoneEnds c rest → watches c h = false → s.Unwatching c := by
  have hstep {h : List Request} {s t : Server S} (hcalm : Calm (fun _ => False) (fun _ _ => True) s t)
      (ih : ∀ rest, h₀ = h ++ rest → NoneEnds c rest → watches c h = false → s.Unwatching c) :
      ∀ rest, h₀ = h ++ rest → NoneEnds c rest → watches c h = false → t.Unwatching c :=
    fun rest heq hrest hno => hcalm.unwatching c id (ih rest heq hrest hno)
  induction hs with
  | @start s hs =>
    have hnone (cl : Client) (hcl : s.clients.lookup c = some cl) : False := by
      rw [hs.clients, UnorderedMap.lookup_empty] at hcl
      cases hcl
    have hstart : Interleaving reserve depth (fun _ _ _ => True) [] none s := .start hs
    refine fun _ _ _ _ => ⟨fun key hkey => ?_, fun cl hcl => (hnone cl hcl).elim⟩
    obtain ⟨cl, hcl, -⟩ := hstart.watchesOwn key hkey
    exact hnone cl hcl
  | callback label _ hnothing hturn ih => exact hstep (.turn hnothing hturn) ih
  | read _ hcl _ hinput ih => exact hstep ((Calm.received hcl).trans (.takeInput hinput)) ih
  | @command h s t i command commands r program hs _ _ hP hprogram hran ih =>
    intro rest heq hrest
    rw [watches_concat]
    rw [List.append_assoc, List.singleton_append] at heq
    dsimp only at hP ⊢
    by_cases hi : i = c
    · subst hi
      rw [if_pos rfl]
      refine (hP rfl ⟨rest, heq, hrest⟩).unwatching hs.popsWait hs.watchesOwn (fun hnone => ?_) hprogram hran
      -- a request that ends nothing is behind the last one that does
      refine ih _ heq fun req hreq hreq' => ?_
      rcases List.mem_cons.mp hreq with rfl | hreq
      · exact hnone
      · exact hrest req hreq hreq'
    · -- the request of another client watches nothing for this one
      rw [if_neg hi]
      have hcalm : Calm (· = i) (fun _ _ => True) s t :=
        .of_run hs.popsWait (issued_trivial _) trivial (fun _ => rfl) (fun _ hno => absurd rfl hno) hprogram hran
      refine fun hno => hcalm.unwatching c (Ne.symm hi) (ih _ heq (fun req hreq hreq' => ?_) hno)
      rcases List.mem_cons.mp hreq with rfl | hreq
      · exact absurd hreq' hi
      · exact hrest req hreq hreq'
  | handshake _ _ _ hsync ih => exact hstep (.syncWithMaster hsync) ih
  | dropped _ _ ih => exact ih
  | answered _ _ ih => exact hstep (.answered _ _) ih

/-- **No spurious aborts**, unless the last `EXEC`, `DISCARD` or `UNWATCH` of the client has left something of its
watching behind: if it has issued no `WATCH` since then, an `EXEC` runs its queue, whatever has been written in
between. The invariant is that a client that has issued no `WATCH` since such an end watches no key and is not marked
as dirty, so that nobody's writes can mark it. -/
theorem exec_runs_queue {h : List Request} {m : Option (ClientId × List RespValue)}
    (hs : Interleaving reserve depth
      (fun before s req => req.1 = c → IsLastEnd c h before req → s.EndsWatching c req.2) h m s)
    (hno : watches c h = false) : s.RunsQueue depth c := by
  intro cl hcl hmulti
  obtain ⟨-, hclean⟩ := (hs.unwatching [] (List.append_nil h).symm (by simp [NoneEnds]) hno).client cl hcl
  exact (runsQueue_iff hcl hmulti).mpr hclean cl hcl hmulti

end Runs

section Sample

open Sample

private theorem interleaving_ran {labels : List Turn} {s : Server Score}
    {P : List Request → Server Score → Request → Prop} (h : ran labels = some s) (hP : ∀ g u, ∀ req ∈ server.history (fun _ => none) 2 labels, P g u req) :
    Interleaving (fun _ => none) 2 P (server.history (fun _ => none) 2 labels) none s :=
  (Interleaving.start starts_server).run labels h hP

/-- Client 0 watches a key up to an `EXEC`, which leaves it in the tables, and then to an `UNWATCH`. Client 1 writes to the
key, also while client 0 is in its next transaction. -/
private def unwatched : List Turn :=
  [.accept, .accept, sends 0 ["WATCH", "k"], sends 0 ["MULTI"], sends 0 ["EXEC"], sends 0 ["UNWATCH"],
    sends 1 ["SET", "k", "v"], sends 0 ["MULTI"], sends 0 ["GET", "k"], sends 1 ["SET", "k", "w"]]

/-- A request whose only element is the name of a command that a transaction does not queue. -/
private def alone : RespValue → Bool
  | .array [.bulkString name] => runsInMulti name
  | _ => false

/-- Whether the last request of client 0 that is to end its watching is an `UNWATCH` that is run. -/
private def lastUnwatches : List Request → Bool
  | [] => true
  | req :: rest =>
    (rest.any (fun req => req.1 = 0 ∧ req.2.endsWatching) || !req.2.endsWatching ||
      (req.2.named = some .unwatch && alone req.2)) && lastUnwatches rest

/-- By induction on the requests. -/
private theorem lastUnwatches_spec {req : Request} {rest : List Request} (hrest : NoneEnds 0 rest)
    (before : List Request) (h : lastUnwatches (before ++ req :: rest) = true) (hends : req.2.endsWatching = true) :
    req.2.named = some .unwatch ∧ alone req.2 = true := by
  induction before with
  | nil =>
    obtain ⟨hlast, -⟩ := Bool.and_eq_true_iff.mp h
    have hnone : rest.any (fun req => req.1 = 0 ∧ req.2.endsWatching) = false := by
      refine List.any_eq_false.mpr fun req' hreq' => ?_
      simpa using hrest req' hreq'
    rw [hnone, hends] at hlast
    simpa using hlast
  | cons first before ih => exact ih (Bool.and_eq_true_iff.mp h).2

theorem exec_runs_queue_unwatched : ∃ s, ran unwatched = some s ∧ s.RunsQueue 2 0 := by
  have hran : (ran unwatched).isSome = true := by decide +kernel
  have hlast : lastUnwatches (server.history (fun _ => none) 2 unwatched) = true := by decide +kernel
  obtain ⟨s, hs⟩ := Option.isSome_iff_exists.mp hran
  refine ⟨s, hs, exec_runs_queue (interleaving_ran hs fun before u req _ _ hend => ?_) (by decide +kernel)⟩
  obtain ⟨rest, heq, hrest⟩ := hend
  unfold EndsWatching
  cases hends : req.2.endsWatching with
  | true =>
    -- the last such request of the client is the `UNWATCH`
    obtain ⟨hunwatch, halone⟩ := lastUnwatches_spec hrest before (heq ▸ hlast) hends
    rw [hunwatch]
    unfold alone at halone
    split at halone
    · next name heq => exact .inr ⟨_, name, heq, rfl, fun _ => halone⟩
    · cases halone
  | false =>
    unfold RespValue.endsWatching at hends
    split at hends
    · cases hends
    · cases hends
    · cases hends
    · trivial

/-- Client 0 watches a key up to an `EXEC`. Client 1 writes to the key, and only then client 0 begins another
transaction. -/
private def rewatched : List Turn :=
  [.accept, .accept, sends 0 ["WATCH", "k"], sends 0 ["MULTI"], sends 0 ["EXEC"],
    sends 1 ["SET", "k", "v"], sends 0 ["MULTI"]]

theorem aborts_after_exec : ¬∀ h m (s : Server Score) c, Interleaving (fun _ => none) 2 (fun _ _ _ => True) h m s →
    watches c h = false → s.RunsQueue 2 c := by
  intro hall
  have hran : (ran rewatched).map (fun s => (s.clients.lookup 0).map fun cl =>
      (cl.hasFlag .multi, cl.hasFlag .dirtyExec)) = some (some (true, true)) := by decide +kernel
  obtain ⟨s, hs, hsample⟩ := Option.map_eq_some_iff.mp hran
  obtain ⟨cl, hcl, hflags⟩ := Option.map_eq_some_iff.mp hsample
  obtain ⟨hmulti, hdirty⟩ := Prod.mk.inj hflags
  have hruns := hall _ none s 0 (interleaving_ran hs fun _ _ _ _ => trivial) (by decide +kernel)
  exact absurd (((runsQueue_iff hcl hmulti).mp hruns).symm.trans hdirty) nofun

end Sample

end Server

end RedisDb
