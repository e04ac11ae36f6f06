import RedisDb.Server.Subscriptions

/-!
# Who waits, as the trace tells it

A client that blocks keeps the command that it waits with, and `handleClientsBlockedOnKey` takes the command from
there to execute it once more. Whether a command can get lost or be executed twice on this way is a question about the
order of events. `waitsWith` reads the answer off the trace: a client waits with the last command that it has blocked
with, until it is woken, its time is up, or it is removed.

The invariant is that the trace and the client agree (`Server.Recounts`). Two facts about events are its
consequences, and so they are proved together with it: the command that is executed when a client is woken is the
one that it waits with at that moment, and only a client that waits times out (`Event.IsTimely`). Since being woken
ends the waiting, a command is executed in this way once for each time that a client blocks with it.

Only the steps that block, wake and remove clients touch any of this. For all others it is enough that they keep the
trace and who waits (`Server.WaitsAsBefore`).
-/

namespace RedisDb

variable {S : Type}

/-! ### What the trace tells -/

/-- The command that a client waits with after an event, if this is the one that it has waited with before. -/
def Event.waitsWith (id : ClientId) (command : Option RespValue) : Event → Option RespValue
  | .blocked i cmd _ => if i = id then some cmd else command
  | .woken i _ | .timedOut i _ | .removed i _ => if i = id then none else command
  | .reply .. | .propagated .. | .completed .. | .attached .. | .pushes .. | .zadd .. | .appendOnlyOff
    | .masterSet | .promoted .. => command

/-- The command that a client waits with after these events. -/
def waitsWith (id : ClientId) (es : List Event) : Option RespValue := es.foldl (Event.waitsWith id) none

/-- **What happens to a client that waits happens to it in time**: it is woken with the command that it waits with
(with `.null`, if it waits no more and an entry for it has been left behind), and it times out only if there is one. -/
def Event.IsTimely (id : ClientId) (command : Option RespValue) : Event → Prop
  | .woken i cmd => i = id → cmd = command.getD .null
  | .timedOut i _ => i = id → command ≠ none
  | .reply .. | .propagated .. | .completed .. | .attached .. | .blocked .. | .removed .. | .pushes .. | .zadd ..
    | .appendOnlyOff | .masterSet | .promoted .. => True

/-- Every event of a trace is timely. -/
def TimelyFor (id : ClientId) (es : List Event) : Prop :=
  ∀ before e after, es = before ++ e :: after → e.IsTimely id (waitsWith id before)

variable {id : ClientId} {es es' : List Event} {e : Event}

/-- One more event. -/
theorem waitsWith_concat (es : List Event) (e : Event) :
    waitsWith id (es ++ [e]) = e.waitsWith id (waitsWith id es) := by
  rw [waitsWith, List.foldl_append, List.foldl_cons, List.foldl_nil, waitsWith]

/-- One more event that is timely. -/
theorem TimelyFor.concat (h : TimelyFor id es) (he : e.IsTimely id (waitsWith id es)) :
    TimelyFor id (es ++ [e]) := by
  intro before e' after heq
  rcases List.eq_nil_or_concat after with rfl | ⟨after, last, rfl⟩
  · obtain ⟨rfl, hsame⟩ := List.append_inj' heq rfl
    exact List.head_eq_of_cons_eq hsame ▸ he
  · rw [List.concat_eq_append, ← List.cons_append, ← List.append_assoc] at heq
    exact h before e' after (List.append_inj' heq rfl).1

/-- A quiet event does not change who waits. -/
theorem Event.IsQuiet.waitsWith (he : e.IsQuiet) (command : Option RespValue) : e.waitsWith id command = command := by
  cases e <;> first | rfl | exact he.elim

/-- A quiet event is timely. -/
theorem Event.IsQuiet.isTimely (he : e.IsQuiet) (command : Option RespValue) : e.IsTimely id command := by
  cases e <;> trivial

/-- Events that have nothing to do with who waits. By induction on them, from the last one. -/
theorem TimelyFor.quiet (h : TimelyFor id es) (hquiet : ∀ e ∈ es', e.IsQuiet) :
    TimelyFor id (es ++ es') ∧ waitsWith id (es ++ es') = waitsWith id es := by
  induction es' using List.reverseRecOn with
  | nil => exact (List.append_nil es).symm ▸ ⟨h, rfl⟩
  | append_singleton es' e ih =>
    obtain ⟨htimely, hsame⟩ := ih fun e he => hquiet e (List.mem_append_left _ he)
    have he : e.IsQuiet := hquiet e (List.mem_append_right _ List.mem_cons_self)
    rw [← List.append_assoc]
    exact ⟨htimely.concat (he.isTimely _), by rw [waitsWith_concat, he.waitsWith, hsame]⟩

/-! ### What the clients keep -/

/-- Whether a client waits, and with which command. -/
def Client.wait (cl : Client) : Bool × RespValue := (cl.hasFlag .blocked, cl.blockCmd)

namespace Server

/-- Whether a client waits, and with which command, if it is there. -/
def wait (id : ClientId) (s : Server S) : Option (Bool × RespValue) := (s.clients.lookup id).map Client.wait

/-- The command that a client is blocked with. -/
def blockedWith (id : ClientId) (s : Server S) : Option RespValue :=
  (s.clients.lookup id).bind fun cl => if cl.hasFlag .blocked then some cl.blockCmd else none

/-- What a client keeps agrees with the command that it waits with: one that does not wait keeps none. -/
def Agrees : Option (Bool × RespValue) → Option RespValue → Prop
  | none, command => command = none
  | some (true, kept), command => command = some kept
  | some (false, kept), command => kept = .null ∧ command = none

/-- **The invariant**: the trace and the client agree, and what has happened to the client has happened in time. -/
structure Recounts (id : ClientId) (s : Server S) : Prop where
  agrees : Agrees (s.wait id) (waitsWith id s.trace)
  timely : TimelyFor id s.trace

/-- A step that has nothing to do with whether a client waits. -/
structure WaitsAsBefore (id : ClientId) (s t : Server S) : Prop where
  wait : t.wait id = s.wait id
  trace : t.trace = s.trace

variable {i : ClientId} {s t u : Server S}

/-- What a client waits with is in its record. -/
theorem wait_of_tables : s.wait id = (s.tables.records id).map fun r => (r.blocked, r.blockCmd) := by
  rw [wait, tables, Option.map_map]
  rfl

/-- A client changes, and the others wait as before. -/
theorem wait_insert {cl : Client} (hclients : t.clients = s.clients.insert i cl) :
    t.wait id = if id = i then some cl.wait else s.wait id := by
  rw [wait, wait, hclients, UnorderedMap.lookup_insert_eq_ite]
  split <;> rfl

namespace WaitsAsBefore

/-- Where nothing happens. -/
theorem refl (s : Server S) : WaitsAsBefore id s s := ⟨rfl, rfl⟩

/-- One step after another. -/
theorem trans (h : WaitsAsBefore id s t) (h' : WaitsAsBefore id t u) : WaitsAsBefore id s u :=
  ⟨h'.wait.trans h.wait, h'.trace.trans h.trace⟩

/-- Where neither the clients nor the trace change. -/
theorem of_eq (hclients : t.clients = s.clients) (htrace : t.trace = s.trace) : WaitsAsBefore id s t :=
  ⟨by rw [Server.wait, Server.wait, hclients], htrace⟩

/-- A client changes, but not in whether it waits. -/
theorem update {cl cl' : Client} (hcl : s.clients.lookup i = some cl) (hclients : t.clients = s.clients.insert i cl')
    (hsame : cl'.wait = cl.wait) (htrace : t.trace = s.trace) : WaitsAsBefore id s t := by
  refine ⟨?_, htrace⟩
  rw [wait_insert hclients]
  split
  · next heq => rw [heq, Server.wait, hcl, hsame, Option.map_some]
  · rfl

/-- A change that is not about waiting. -/
theorem updateClient {f : Client → Client} (hf : ∀ cl, (f cl).wait = cl.wait) (h : s.updateClient i f = some t) :
    WaitsAsBefore id s t := by
  obtain ⟨cl, hcl, rfl⟩ := Option.map_eq_some_iff.mp h
  exact update hcl rfl (hf cl) rfl

/-- A watch is kept beside that. -/
theorem watch {n : ℕ} {key : Bytes} (h : s.watch i n key = some t) : WaitsAsBefore id s t := by
  obtain ⟨db, -, h⟩ := Option.bind_eq_some_iff.mp h
  obtain ⟨cl, hcl, rfl⟩ := Option.map_eq_some_iff.mp h
  exact update hcl rfl rfl rfl

/-- So is its end. -/
theorem unwatch (h : s.unwatch i = some t) : WaitsAsBefore id s t := by
  obtain ⟨cl, hcl, rfl⟩ := Option.map_eq_some_iff.mp h
  exact update hcl rfl rfl rfl

/-- So is a subscription. -/
theorem subscribeChannel {channel : Bytes} (h : s.subscribeChannel i channel = some t) : WaitsAsBefore id s t := by
  obtain ⟨cl, hcl, rfl⟩ := Option.map_eq_some_iff.mp h
  split
  · exact refl s
  · exact update hcl rfl rfl rfl

/-- So is its end. -/
theorem unsubscribeChannel {channel : Bytes} (h : s.unsubscribeChannel i channel = some t) : WaitsAsBefore id s t := by
  obtain ⟨cl, hcl, rfl⟩ := Option.map_eq_some_iff.mp h
  split
  · exact update hcl rfl rfl rfl
  · exact refl s

/-- So is that to a pattern. -/
theorem psubscribePattern {pattern : Bytes} (h : s.psubscribePattern i pattern = some t) : WaitsAsBefore id s t := by
  obtain ⟨cl, hcl, rfl⟩ := Option.map_eq_some_iff.mp h
  split
  · exact refl s
  · exact update hcl rfl rfl rfl

/-- So is its end. -/
theorem punsubscribePattern {pattern : Bytes} (h : s.punsubscribePattern i pattern = some t) :
    WaitsAsBefore id s t := by
  obtain ⟨cl, hcl, rfl⟩ := Option.map_eq_some_iff.mp h
  split
  · exact update hcl rfl rfl rfl
  · exact refl s

/-- So is being a replica. -/
theorem closeReplication (i : ClientId) (cl : Client) (s : Server S) :
    WaitsAsBefore id s (s.closeReplication i cl) := by
  unfold Server.closeReplication
  dsimp only
  split <;> split <;> exact of_eq rfl rfl

/-- That another client does not wait any more. -/
theorem unblockClient (hne : id ≠ i) (h : s.unblockClient i = some t) : WaitsAsBefore id s t := by
  obtain ⟨cl, -, rfl⟩ := Option.map_eq_some_iff.mp h
  split
  · exact ⟨(wait_insert rfl).trans (if_neg hne), rfl⟩
  · exact refl s

/-- So are the steps of `closeClient`, for another client. -/
theorem closeClient (hne : id ≠ i) (h : s.closeClient i = some t) : WaitsAsBefore id s t := by
  obtain ⟨cl, hcl, h⟩ := Option.bind_eq_some_iff.mp h
  obtain ⟨u, hu, h⟩ := Option.bind_eq_some_iff.mp h
  obtain ⟨v, hv, h⟩ := Option.bind_eq_some_iff.mp h
  have hclosed : WaitsAsBefore id s (s.closeSubscriptions i cl) := update hcl rfl rfl rfl
  exact Option.some.inj h ▸ ((hclosed.trans (unblockClient hne hu)).trans (unwatch hv)).trans (closeReplication i cl v)

end WaitsAsBefore

/-- After `unblockClient` a client does not wait. -/
theorem agrees_unblockClient {command : Option RespValue} (hs : Agrees (s.wait id) command)
    (h : s.unblockClient id = some t) : Agrees (t.wait id) none := by
  obtain ⟨cl, hcl, rfl⟩ := Option.map_eq_some_iff.mp h
  split
  · next hflag =>
    rw [wait_insert rfl, if_pos rfl, Client.wait, Client.clearBlockState, Client.hasFlag_clearFlag, if_pos rfl]
    exact ⟨rfl, rfl⟩
  · next hflag =>
    rw [wait, hcl, Option.map_some, Client.wait, Bool.eq_false_of_not_eq_true hflag] at hs ⊢
    exact ⟨hs.1, rfl⟩

namespace Recounts

/-- A step that is not about waiting keeps the invariant. -/
theorem asBefore (hs : Recounts id s) (h : WaitsAsBefore id s t) : Recounts id t :=
  ⟨h.wait ▸ h.trace ▸ hs.agrees, h.trace ▸ hs.timely⟩

/-- So does a quiet one. -/
theorem quiet (hs : Recounts id s) (h : Quiet s t) : Recounts id t := by
  obtain ⟨es, hes, hquiet⟩ := h.trace
  obtain ⟨htimely, hsame⟩ := hs.timely.quiet hquiet
  refine ⟨?_, hes ▸ htimely⟩
  rw [wait_of_tables, h.tables, ← wait_of_tables, hes, hsame]
  exact hs.agrees

/-- An event, and a step that makes the client agree with it. -/
theorem concat (hs : Recounts id s) (htrace : t.trace = s.trace ++ [e]) (he : e.IsTimely id (waitsWith id s.trace))
    (hagrees : Agrees (t.wait id) (e.waitsWith id (waitsWith id s.trace))) : Recounts id t where
  agrees := by rwa [htrace, waitsWith_concat]
  timely := htrace ▸ hs.timely.concat he

/-- An event of another kind, or of another client. -/
theorem note (hs : Recounts id s) (he : e.IsTimely id (waitsWith id s.trace))
    (hsame : e.waitsWith id (waitsWith id s.trace) = waitsWith id s.trace) : Recounts id (s.note e) :=
  hs.concat rfl he (by rw [hsame]; exact hs.agrees)

/-- A client blocks, whether or not it has waited before. -/
theorem blockClient {keys : List Bytes} {timeout : ℤ} {cmd : RespValue} {target : Bytes} (hs : Recounts id s)
    (h : s.blockClient i keys timeout cmd target = some t) : Recounts id t := by
  obtain ⟨cl, deadline, env, -, rfl⟩ := blockClient_spec h
  refine hs.concat rfl trivial ?_
  rw [show Server.wait id (Server.note _ _) = _ from wait_insert rfl, Event.waitsWith]
  by_cases heq : i = id
  · rw [if_pos heq, if_pos heq.symm, Client.wait]
    have hflag : (cl.setFlag .blocked).hasFlag .blocked = true := by rw [Client.hasFlag_setFlag, if_pos rfl]
    exact hflag ▸ rfl
  · rw [if_neg heq, if_neg (Ne.symm heq)]
    exact hs.agrees

/-- **A client is woken with the command that it waits with.** -/
theorem woken {cl : Client} (hs : Recounts id s) (hcl : s.clients.lookup i = some cl)
    (h : s.unblockClient i = some t) : Recounts id (t.note (.woken i cl.blockCmd)) := by
  by_cases heq : id = i
  · subst heq
    have hkept := hs.agrees
    rw [wait, hcl, Option.map_some, Client.wait] at hkept
    refine hs.concat (congrArg (· ++ _) (silent_unblockClient h).trace) (fun _ => ?_) ?_
    · cases hflag : cl.hasFlag .blocked with
      | true =>
        rw [hflag] at hkept
        rw [hkept, Option.getD_some]
      | false =>
        rw [hflag] at hkept
        rw [hkept.2, hkept.1, Option.getD_none]
    · rw [Event.waitsWith, if_pos rfl]
      have hunblocked : Agrees (t.wait id) none := agrees_unblockClient hs.agrees h
      exact hunblocked
  · refine (hs.asBefore (.unblockClient heq h)).note (fun hi => absurd hi.symm heq) ?_
    rw [Event.waitsWith, if_neg (Ne.symm heq)]

/-- Only a client that waits times out, and it waits no more. -/
theorem timeOut (hs : Recounts id s) (h : s.timeOut i = some t) : Recounts id t := by
  obtain ⟨cl, hcl, h⟩ := Option.bind_eq_some_iff.mp h
  split at h
  · next hflag =>
    obtain ⟨u, hu, h⟩ := Option.bind_eq_some_iff.mp h
    obtain ⟨v, hv, rfl⟩ := Option.map_eq_some_iff.mp hu
    have hreplied : WaitsAsBefore id s v := .updateClient (f := (·.addReply RespSerializer.nullArray)) (fun _ => rfl) hv
    have hmid : Recounts id v := hs.asBefore hreplied
    by_cases heq : id = i
    · subst heq
      have hwait : v.wait id = some (true, cl.blockCmd) := by
        rw [hreplied.wait, wait, hcl, Option.map_some, Client.wait, hflag]
      have hkept : waitsWith id v.trace = some cl.blockCmd := by
        have hagrees := hmid.agrees
        rwa [hwait] at hagrees
      refine hmid.concat (silent_unblockClient h).trace (fun _ => hkept ▸ nofun) ?_
      rw [Event.waitsWith, if_pos rfl]
      exact agrees_unblockClient (s := v.note _) hmid.agrees h
    · refine asBefore (hmid.note (e := .timedOut i _) (fun hi => absurd hi.symm heq) ?_) (.unblockClient heq h)
      rw [Event.waitsWith, if_neg (Ne.symm heq)]
  · exact Option.some.inj h ▸ hs

/-- A client that is removed waits no more. -/
theorem removeClient (hs : Recounts id s) (h : s.removeClient i = some t) : Recounts id t := by
  have hgone := lookup_removeClient h
  unfold Server.removeClient at h
  split at h
  · exact Option.some.inj h ▸ hs
  obtain ⟨u, hu, rfl⟩ := Option.map_eq_some_iff.mp h
  have htrace : u.trace = s.trace := (silent_closeClient hu).trace
  refine hs.concat (congrArg (· ++ _) htrace) trivial ?_
  by_cases heq : i = id
  · subst heq
    rw [Event.waitsWith, if_pos rfl, wait, hgone]
    rfl
  · rw [Event.waitsWith, if_neg heq]
    have herased : wait id (removeWriteHandler i { u with clients := u.clients.erase i }) = u.wait id :=
      congrArg (Option.map Client.wait) (AList.lookup_erase_ne (Ne.symm heq))
    have hkept := hs.agrees
    rw [← (WaitsAsBefore.closeClient (Ne.symm heq) hu).wait, ← herased] at hkept
    exact hkept

theorem disconnectFromMaster (hs : Recounts id s) (h : s.disconnectFromMaster = some t) : Recounts id t := by
  unfold Server.disconnectFromMaster at h
  split at h
  · exact Option.some.inj h ▸ hs.asBefore (.of_eq rfl rfl)
  · split at h
    · cases h
    · obtain ⟨u, hu, rfl⟩ := Option.map_eq_some_iff.mp h
      have hunset : Recounts id { s with masterClient := none } := hs.asBefore (.of_eq rfl rfl)
      exact (hunset.removeClient hu).asBefore (.of_eq rfl rfl)

/-- A new client does not wait. It is another one than those that the trace tells of. -/
theorem makeClient {f : Client → Client} (hf : ∀ cl : Client, (f cl).wait = cl.wait) (hs : Recounts id s)
    (hfresh : s.clients.lookup s.nextClient = none) : Recounts id (s.makeClient f).2 := by
  refine ⟨?_, hs.timely⟩
  show Agrees (wait id (s.makeClient f).2) (waitsWith id s.trace)
  rw [wait_insert (s := s) (i := s.nextClient) rfl]
  split
  · next heq =>
    have hnone := hs.agrees
    rw [heq, wait, hfresh] at hnone
    rw [hf, heq]
    exact ⟨rfl, hnone⟩
  · exact hs.agrees

end Recounts

/-- A server that starts has an empty trace, and no clients. -/
theorem Starts.recounts (hs : s.Starts) : Recounts id s where
  agrees := by
    rw [wait, hs.clients, hs.trace]
    rfl
  timely before e after heq := by
    rw [hs.trace] at heq
    exact absurd heq.symm (List.append_ne_nil_of_right_ne_nil _ (List.cons_ne_nil _ _))

/-- The command that a client keeps while it waits. -/
theorem Recounts.waitsWith_eq (hs : Recounts id s) : waitsWith id s.trace = s.blockedWith id := by
  have hagrees := hs.agrees
  rw [wait] at hagrees
  rw [blockedWith]
  cases hcl : s.clients.lookup id with
  | none =>
    rw [hcl] at hagrees
    exact hagrees
  | some cl =>
    rw [hcl, Option.map_some, Client.wait] at hagrees
    rw [Option.bind_some]
    cases hflag : cl.hasFlag .blocked with
    | true =>
      rw [hflag] at hagrees
      exact hagrees
    | false =>
      rw [hflag] at hagrees
      exact hagrees.2

section Runs

variable [Platform] {k : Option RespValue} {c : Option ClientId}

/-- **What code does keeps the invariant.** By induction on what it does. -/
theorem Does.recounts (h : Does k c s t) (hs : Recounts id s) : Recounts id t := by
  induction h with
  | refl => exact hs
  | trans _ _ ih ih' => exact ih' (ih hs)
  | handler _ ih => exact ih hs
  | aside h => exact hs.quiet (.aside h)
  | own hcl hsame => exact hs.quiet (.own hcl hsame.record)
  | reply h => exact hs.quiet (.addReply h)
  | deliver h => exact hs.quiet (.deliver h)
  | database hdb hcalls h => exact hs.quiet (.putDatabase hdb hcalls h)
  | scanned hsame _ h => exact hs.quiet (.putDatabases hsame h)
  | watch h => exact hs.asBefore (.watch h)
  | unwatch h => exact hs.asBefore (.unwatch h)
  | subscribe h => exact hs.asBefore (.subscribeChannel h)
  | unsubscribe h => exact hs.asBefore (.unsubscribeChannel h)
  | psubscribe h => exact hs.asBefore (.psubscribePattern h)
  | punsubscribe h => exact hs.asBefore (.punsubscribePattern h)
  -- the steps that enter or end a wait, each with its lemma
  | block _ h => exact hs.blockClient h
  | unblock hcl h => exact hs.woken hcl h
  | @attach _ _ i _ _ h =>
    obtain ⟨u, hu, rfl⟩ := Option.map_eq_some_iff.mp h
    -- becoming a replica is no wait
    have hattached : WaitsAsBefore id _ u := .updateClient (fun cl => by
      rw [Client.wait, Client.hasFlag_setFlag, if_neg (by decide)]; rfl) hu
    have hlisted := (hs.asBefore hattached).asBefore (.of_eq (t := { u with replicas := u.replicas ++ [i] }) rfl rfl)
    exact hlisted.note (e := .attached _ _) trivial rfl
  | remove h => exact hs.removeClient h
  | disconnect h => exact hs.disconnectFromMaster h
  | replicate h => exact (hs.quiet (.setMaster _ _ _)).disconnectFromMaster h
  | completed _ h => exact hs.quiet (.complete h)
  | wake hcl h _ ih => exact (ih (hs.woken hcl h)).quiet (.installWriteHandler _ _)

/-- **So does a run.** -/
theorem Moves.recounts (h : Moves s t) (hexact : s.tables.subscriptions.Exact) (hs : Recounts id s) :
    Recounts id t := by
  -- the next client is not there yet
  have hnext {s : Server S} (hexact : s.tables.subscriptions.Exact) : s.clients.lookup s.nextClient = none := by
    cases hcl : s.clients.lookup s.nextClient with
    | none => rfl
    | some cl => exact absurd (hexact.fresh (subscriptions_of_lookup hcl)) (lt_irrefl _)
  induction h with
  | refl => exact hs
  | trans h _ ih ih' => exact ih' (h.exact hexact) (ih hexact hs)
  | does _ h => exact h.recounts hs
  | accepted =>
    unfold addClient
    split
    · exact hs
    · exact hs.makeClient (fun _ => rfl) (hnext hexact)
  | @linked s _ _ =>
    unfold connectToMaster
    dsimp only
    split
    · exact hs.asBefore (.of_eq rfl rfl)
    · have hdrawn : Recounts id { s with outside := { s.outside with
          connects := fun i => s.outside.connects (i + 1) } } := hs.asBefore (.of_eq rfl rfl)
      have hmade := hdrawn.makeClient (f := fun cl => (cl.setFlag .master).addReply
        (RespSerializer.bulkStringArray [str "PING"])) (fun cl => by
          rw [Client.wait, Client.hasFlag_addReply, Client.hasFlag_setFlag, if_neg (by decide)]; rfl) (hnext hexact)
      exact (hmade.quiet (.note (e := .reply _ _) trivial _)).asBefore (.of_eq rfl rfl)
  | flushed =>
    unfold flushAof
    split
    · split <;> exact hs.asBefore (.of_eq rfl rfl)
    · exact hs.asBefore (.of_eq rfl rfl)
  -- the one other way in which a wait ends
  | timedOut h => exact hs.timeOut h
  | received _ hcl => exact hs.asBefore (.update hcl rfl rfl rfl)
  | taken hcl hsame => exact hs.quiet (.own hcl hsame.record)
  | answered =>
    split
    · exact (hs.quiet (.installWriteHandler _ _)).asBefore (.of_eq rfl rfl)
    · exact hs.asBefore (.of_eq rfl rfl)
  | hungUp | sentAll => exact hs.asBefore (.of_eq rfl rfl)
  | @sent id cl _ answer hcl => exact hs.quiet (.own hcl (answer.record_apply cl))

end Runs

end Server

end RedisDb
