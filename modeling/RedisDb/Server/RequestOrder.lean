import RedisDb.Server.Interleavings
import RedisDb.Server.Waiting

/-!
# The order of the requests of one client

`History` follows one client through a run of the server. It keeps the bytes that the client has sent and the commands
that the loop of `processClientInput` has handed on for it, each with its place in the trace. The trace has the rest
of what happens to these commands. One that blocks the client is executed once more, by `handleClientsBlockedOnKey`,
when another client has pushed onto a key that it waits for.

`History.InOrder` is what pipelining asks for. For the loop (`stream`): no command is lost or repeated, and nothing runs
behind a `QUIT`. For the commands that wait (`inTurn`, `asked`, `timely`, `once`, `waits`): while one waits the next is
not handed on; a client blocks with commands only that have been handed on for it; it is woken with the one that it
waits with, and not again before it has blocked with it anew; and what it waits with at the end is kept.

The loop gives a command up where it ends early, since the input is gone by then. It ends early at a client that is
blocked, and a later read does not look at the mark for closing before it runs its first command. `requests_in_order`
is about the runs where none of this happens to a command (`History.Proceeds`), and `pipelined_request_lost` is a run
where it does. `EXEC` runs its queue in a loop of its own: a command there counts as executed with it, also where it
blocks the client and the next one in the queue blocks it anew.

There are two invariants, each proved by induction on the callbacks. `Follows` is about the stream: the commands of
the bytes so far have been handed on up to the first `QUIT`, and the bytes they leave are in the input buffer. It needs
`Proceeds`. `Attends` is about the commands that wait, and it holds in every run. Its step is the handing on
of one command: the client is not blocked then, so it waits with nothing (`Recounts`), and what clients block with from
there on is what they have been asked (`Calm.asked`), which for this client is among the commands handed on.
-/

namespace RedisDb

open RespParser RespSerializer Incremental

variable {S : Type}

/-! ### Once -/

/-- The command that a client waits with at the end is one that it has blocked with. By induction on the events, from
the last one. -/
theorem exists_blocked {id : ClientId} {command : RespValue} {es : List Event} : ∀ {old : Option RespValue},
    es.foldl (Event.waitsWith id) old = some command →
    old = some command ∨ ∃ left, .blocked id command left ∈ es := by
  induction es using List.reverseRecOn with
  | nil => exact .inl
  | append_singleton es e ih =>
    intro old h
    rw [List.foldl_append, List.foldl_cons, List.foldl_nil] at h
    -- where the last event leaves the wait alone, it is from an earlier one
    have hearlier (h : es.foldl (Event.waitsWith id) old = some command) :
        old = some command ∨ ∃ left, .blocked id command left ∈ es ++ [e] :=
      (ih h).imp_right fun ⟨left, hleft⟩ => ⟨left, List.mem_append_left _ hleft⟩
    cases e with
    | blocked i cmd left =>
      rw [Event.waitsWith] at h
      split at h
      · next heq =>
        obtain rfl := Option.some.inj h
        exact .inr ⟨left, List.mem_append_right _ (heq ▸ List.mem_cons_self)⟩
      · exact hearlier h
    | woken i | timedOut i | removed i =>
      rw [Event.waitsWith] at h
      split at h
      · cases h
      · exact hearlier h
    | _ => exact hearlier h

/-- **Between two wakeups the client blocks anew**, with the command that it is woken with. -/
theorem TimelyFor.once {id : ClientId} {es before between after : List Event} {command command' : RespValue}
    (h : TimelyFor id es) (heq : es = before ++ .woken id command :: (between ++ .woken id command' :: after))
    (hsome : command' ≠ .null) : ∃ left, .blocked id command' left ∈ between := by
  have hwoken := h (before ++ .woken id command :: between) (.woken id command') after (by
    rw [heq, List.append_assoc, List.cons_append]) rfl
  have hwaits : waitsWith id (before ++ .woken id command :: between)
      = between.foldl (Event.waitsWith id) none := by
    rw [waitsWith, List.foldl_append, List.foldl_cons, Event.waitsWith, if_pos rfl]
  rw [hwaits] at hwoken
  cases hpending : between.foldl (Event.waitsWith id) none with
  | none =>
    rw [hpending] at hwoken
    exact absurd hwoken hsome
  | some pending =>
    rw [hpending, Option.getD_some] at hwoken
    subst hwoken
    exact (exists_blocked hpending).resolve_left (Option.some_ne_none _).symm

namespace Server

variable {reserve : Reserve} {depth : ℕ} {id i : ClientId} {s t u : Server S}

/-! ### A client's history -/

/-- The server, with what one client has sent, and the commands that have been handed on for it, each with the length
of the trace at that time. -/
structure History (S : Type) where
  server : Server S
  received : Bytes := []
  executed : List (ℕ × RespValue) := []

namespace History

variable {h : History S} {commands : List RespValue} {rest : Bytes}

/-- The commands that have been handed on. -/
def requests (h : History S) : List RespValue := h.executed.map Prod.snd

/-- **The invariant of the stream**: the commands of the stream so far have been executed up to the first `QUIT`, and
the bytes they leave are in the input buffer. -/
structure Follows (reserve : Reserve) (id : ClientId) (h : History S) (commands : List RespValue)
    (rest : Bytes) : Prop where
  drained : drain (frame reserve) h.received = .ok (commands, rest)
  executed : h.requests = throughQuit commands
  input : ∀ {cl}, h.server.clients.lookup id = some cl → cl.inputBuffer = rest
  unsent : h.server.nextClient ≤ id → h.received = []

theorem follows_start (hs : s.Starts) : Follows reserve id { server := s } [] [] where
  drained := drain_nil
  executed := rfl
  input {cl} hcl := by
    rw [hs.clients] at hcl
    cases hcl
  unsent _ := rfl

/-- A callback that reads nothing from the client. -/
theorem Follows.skip (hfollows : Follows reserve id h commands rest)
    (hkeeps : KeepsInputOf id h.server t) : Follows reserve id { h with server := t } commands rest where
  drained := hfollows.drained
  executed := hfollows.executed
  input {cl'} hcl' := by
    rcases hkeeps.input hcl' with ⟨cl, hcl, hsame⟩ | ⟨hlow, hnil⟩
    · exact hsame.trans (hfollows.input hcl)
    · -- the client is new, and has sent nothing
      have hdrained := hfollows.drained
      rw [hfollows.unsent hlow, drain_nil] at hdrained
      exact hnil.trans (Prod.mk.inj (Except.ok.inj hdrained)).2
  unsent hlow := hfollows.unsent (hkeeps.nextClient.trans hlow)

/-- More of the stream is drained from the bytes that are left. -/
theorem Follows.drained_append (hfollows : Follows reserve id h commands rest) {bytes rest' : Bytes}
    {more : List RespValue} (hread : readInput reserve rest bytes = .ok (more, rest')) :
    drain (frame reserve) (h.received ++ bytes) = .ok (commands ++ more, rest') := by
  rw [readInput_eq_drain] at hread
  rw [isIncremental_frame.drain_append, hfollows.drained]
  simp only [hread, prepend_ok]

end History

/-! ### The commands that wait -/

/-- What clients have been asked: this one, what has been handed on for it, and the others anything. -/
def Asked (id : ClientId) (executed : List (ℕ × RespValue)) (i : ClientId) (command : RespValue) : Prop :=
  i = id → ∃ n, (n, command) ∈ executed

/-- **The invariant of the commands that wait.** -/
structure Attends (id : ClientId) (executed : List (ℕ × RespValue)) (s : Server S) : Prop where
  pops : s.PopsWait
  exact : s.tables.subscriptions.Exact
  recounts : Recounts id s
  issued : s.Issued (Asked id executed)
  placed : ∀ x ∈ executed, x.1 ≤ s.trace.length
  inTurn : ∀ x ∈ executed, waitsWith id (s.trace.take x.1) = none
  asked : ∀ before command left after, s.trace = before ++ .blocked id command left :: after →
    ∃ n ≤ before.length, (n, command) ∈ executed

namespace Attends

variable {executed : List (ℕ × RespValue)}

theorem start (hs : s.Starts) : Attends id [] s where
  pops i cl hcl := by
    rw [hs.clients, UnorderedMap.lookup_empty] at hcl
    cases hcl
  exact := hs.exact
  recounts := hs.recounts
  issued i cl hcl := by
    rw [hs.clients, UnorderedMap.lookup_empty] at hcl
    cases hcl
  placed := nofun
  inTurn := nofun
  asked before command left after heq := by
    rw [hs.trace] at heq
    exact absurd heq.symm (List.append_ne_nil_of_right_ne_nil _ (List.cons_ne_nil _ _))

/-- **A step** that is calm: clients come to wait with what they have been asked. -/
theorem step [Platform] {W : ClientId → Prop} (hs : Attends id executed s) (hcalm : Calm W (Asked id executed) s t)
    (hmoves : Moves s t) : Attends id executed t where
  pops := hcalm.pops hs.pops
  exact := hmoves.exact hs.exact
  recounts := hmoves.recounts hs.exact hs.recounts
  issued := hcalm.issued hs.issued
  placed x hx := (hs.placed x hx).trans hmoves.trace_prefix.length_le
  inTurn x hx := by
    obtain ⟨es, hes⟩ := hmoves.trace_prefix
    rw [← hes, List.take_append_of_le_length (hs.placed x hx)]
    exact hs.inTurn x hx
  asked before command left after heq := by
    rcases le_or_gt s.trace.length before.length with hlate | hearly
    · -- the event is new
      have hmem : .blocked id command left ∈ t.trace := by
        rw [heq]
        exact List.mem_append_right _ List.mem_cons_self
      rcases hcalm.asked id command left hmem with hbefore | hasked
      · obtain ⟨before', after', hsplit⟩ := List.append_of_mem hbefore
        obtain ⟨n, -, hn⟩ := hs.asked before' command left after' hsplit
        exact ⟨n, (hs.placed _ hn).trans hlate, hn⟩
      · obtain ⟨n, hn⟩ := hasked rfl
        exact ⟨n, (hs.placed _ hn).trans hlate, hn⟩
    · -- the event was there before the step
      have hprefix : before ++ [.blocked id command left] <+: t.trace :=
        ⟨after, by rw [heq, List.append_assoc, List.singleton_append]⟩
      obtain ⟨after', hold⟩ := List.prefix_of_prefix_length_le hprefix hmoves.trace_prefix (by
        rw [List.length_append, List.length_singleton]
        exact hearly)
      exact hs.asked before command left after' (by rw [← hold, List.append_assoc, List.singleton_append])

/-- **One command is handed on**: the client is not blocked then, so nothing waits. -/
theorem handOn (hs : Attends id executed s) (hfree : s.clientHas id .blocked = false) (command : RespValue) :
    Attends id (executed ++ [(s.trace.length, command)]) s where
  pops := hs.pops
  exact := hs.exact
  recounts := hs.recounts
  issued := hs.issued.mono fun i cmd hasked hi =>
    (hasked hi).imp fun _ hmem => List.mem_append_left _ hmem
  placed x hx := by
    rcases List.mem_append.mp hx with hx | hx
    · exact hs.placed x hx
    · exact List.mem_singleton.mp hx ▸ le_rfl
  inTurn x hx := by
    rcases List.mem_append.mp hx with hx | hx
    · exact hs.inTurn x hx
    · -- the command that is handed on comes after all events, and the client does not wait
      rw [List.mem_singleton.mp hx, List.take_length, hs.recounts.waitsWith_eq, blockedWith]
      cases hcl : s.clients.lookup id with
      | none => rfl
      | some cl =>
        rw [clientHas, hcl, Option.any_some] at hfree
        rw [Option.bind_some, hfree, if_neg Bool.false_ne_true]
  asked before command left after heq := by
    obtain ⟨n, hle, hn⟩ := hs.asked before command left after heq
    exact ⟨n, hle, List.mem_append_left _ hn⟩

end Attends

section Requests

variable [Platform] [Double S] [Inhabited S] [LT S] [DecidableLT S] [BEq S]

/-! ### Runs, with the history of a client -/

namespace History

/-- A callback, with what it means for the client. -/
def turn (reserve : Reserve) (depth : ℕ) (id : ClientId) (label : Turn) (h : History S) :
    Option (History S) :=
  (h.server.turn reserve depth label).map fun t =>
    match label.reads id h.server with
    | none => { h with server := t }
    | some (cl, bytes) =>
      { server := t
        received := h.received ++ bytes
        executed := h.executed ++ h.server.handedOnAtRead reserve depth id cl bytes }

/-- The commands in the input buffer of the client, while it is blocked. -/
def retained (reserve : Reserve) (id : ClientId) (h : History S) : List RespValue :=
  match h.server.clients.lookup id with
  | none => []
  | some cl =>
    if cl.hasFlag .blocked then
      match parse reserve cl.inputBuffer with
      | .error _ => []
      | .ok result => result.commands
    else []

/-- **The requests of a client, in order.** -/
structure InOrder (reserve : Reserve) (id : ClientId) (h : History S) : Prop where
  /-- The commands received completely before a `QUIT` have been handed on, each once and in their order, or are
  retained; and nothing behind the `QUIT` has been handed on. -/
  stream : ∃ result, parse reserve h.received = .ok result ∧
    beforeQuit result.commands <+: h.requests ++ h.retained reserve id ∧ h.requests <+: throughQuit result.commands
  /-- None of them was handed on while another one waited. -/
  inTurn : ∀ n command, (n, command) ∈ h.executed → waitsWith id (h.server.trace.take n) = none
  /-- The client has blocked only with a command that had been handed on. -/
  asked : ∀ before command left after, h.server.trace = before ++ .blocked id command left :: after →
    ∃ n ≤ before.length, (n, command) ∈ h.executed
  /-- When the client was woken, the command was executed that it waited with; it timed out only while it waited. -/
  timely : TimelyFor id h.server.trace
  /-- Before it was woken with a command again, the client has blocked with it anew. -/
  once : ∀ before command between command' after, h.server.trace
      = before ++ .woken id command :: (between ++ .woken id command' :: after) → command' ≠ .null →
    ∃ left, .blocked id command' left ∈ between
  /-- The command that the client still waits with is kept. -/
  waits : waitsWith id h.server.trace = h.server.blockedWith id

/-- The callback gives no command of the client up: a read that completes commands finds the client
neither blocked nor behind a `QUIT`, does not make its input too long, and the loop goes through the
commands. -/
def Proceeds (reserve : Reserve) (depth : ℕ) (id : ClientId) (label : Turn) (h : History S) : Prop :=
  ∀ cl bytes, label.reads id h.server = some (cl, bytes) →
    (∃ rest, readInput reserve cl.inputBuffer bytes = .ok ([], rest)) ∨
    (cl.hasFlag .blocked = false ∧ (∀ c ∈ h.requests, isQuit c = false) ∧
      (cl.inputBuffer ++ bytes).length ≤ maxInputBuffer ∧
      ∀ commands t, (h.server.received id cl bytes).takeInput reserve id = some (commands, t) →
        t.GoesThrough depth id commands)

/-- Runs whose callbacks satisfy a condition. -/
inductive Reaches (reserve : Reserve) (depth : ℕ) (id : ClientId) (P : Turn → History S → Prop) :
    History S → Prop
  | start {s : Server S} : s.Starts → Reaches reserve depth id P { server := s }
  | turn {h h' : History S} (label : Turn) : Reaches reserve depth id P h → P label h →
      h.turn reserve depth id label = some h' → Reaches reserve depth id P h'

end History

/-! ### What the callbacks do with the commands -/

namespace Attends

variable {executed : List (ℕ × RespValue)} {command : RespValue}

/-- A command is run that its client has been asked. -/
theorem dispatch (hs : Attends id executed s) (hreading : s.reading = some i) (hasked : Asked id executed i command)
    (h : s.dispatch depth i command = some t) : Attends id executed t ∧ t.reading = some i := by
  obtain ⟨cl, -, h⟩ := Option.bind_eq_some_iff.mp h
  split at h
  · have hadvances := Advances.syncWithMaster hreading h
    exact ⟨hs.step (W := fun _ => True) (.syncWithMaster h) hadvances.moves, hadvances.reading.trans hreading⟩
  · split at h
    · cases h
    · next program hprogram =>
      obtain ⟨⟨r, u⟩, hrun, rfl⟩ := Option.map_eq_some_iff.mp h
      have hadvances : Advances s u := .does (by simpa using hreading) (program.within hrun)
      have hcalm : Calm (fun _ => True) (Asked id executed) s u :=
        .of_run hs.pops hs.issued hasked (fun _ => trivial) (fun _ hno => absurd trivial hno) hprogram hrun
      exact ⟨hs.step hcalm hadvances.moves, hadvances.reading.trans hreading⟩

/-- **The loop of `processClientInput`.** By induction on the commands: for each that belongs to the client, one is
handed on. -/
theorem runCommands (commands : List RespValue) : ∀ {executed : List (ℕ × RespValue)} {s : Server S},
    Attends id executed s → s.reading = some i → s.runCommands depth i commands = some t →
    Attends id (executed ++ if i = id then s.handedOn depth i commands else []) t ∧ t.reading = some i := by
  induction commands with
  | nil =>
    intro executed s hs hreading h
    rw [handedOn, ite_self, List.append_nil]
    exact Option.some.inj h ▸ ⟨hs, hreading⟩
  | cons command commands ih =>
    intro executed s hs hreading h
    rw [handedOn]
    rcases runCommands_cons h with ⟨hblocked, rfl⟩ | ⟨hfree, u, hu, hrest⟩
    · -- a client that is blocked has no more commands handed on
      rw [if_pos hblocked, ite_self, List.append_nil]
      exact ⟨hs, hreading⟩
    rw [hfree, if_neg Bool.false_ne_true, hu]
    -- the command is handed on, and run
    obtain ⟨hran, hreading'⟩ : Attends id (executed ++ if i = id then [(s.trace.length, command)] else []) u ∧
        u.reading = some i := by
      split
      · next heq =>
        subst heq
        exact (hs.handOn hfree command).dispatch hreading
          (fun _ => ⟨_, List.mem_append_right _ List.mem_cons_self⟩) hu
      · next hne =>
        rw [List.append_nil]
        exact hs.dispatch hreading (fun heq => absurd heq hne) hu
    rcases hrest with ⟨hclose, rfl⟩ | ⟨hopen, hrest⟩
    · dsimp only
      rw [if_pos hclose]
      exact ⟨hran, hreading'⟩
    · have hall := ih hran hreading' hrest
      dsimp only
      rw [hopen, if_neg Bool.false_ne_true]
      by_cases heq : i = id
      · rw [if_pos heq, if_pos heq, List.append_assoc, List.singleton_append] at hall
        rwa [if_pos heq]
      · rw [if_neg heq, if_neg heq, List.append_nil] at hall
        rwa [if_neg heq]

/-- **A callback.** -/
theorem turn {label : Turn} (hs : Attends id executed s) (hreading : s.reading = none)
    (h : s.turn reserve depth label = some t) :
    Attends id (executed ++ match label.reads id s with
      | none => []
      | some (cl, bytes) => s.handedOnAtRead reserve depth id cl bytes) t := by
  by_cases hnothing : label.HandsOnNothing s
  · -- nothing is handed on, and a callback only adds to the trace
    have hquiet : Attends id executed t :=
      hs.step (W := fun _ => True) (.turn hnothing h) (moves_of_turn hreading h).1
    cases hreads : label.reads id s with
    | none =>
      dsimp only
      rwa [List.append_nil]
    | some x =>
      dsimp only
      rwa [handedOnAtRead, if_pos (hnothing id x.1 x.2 hreads), List.append_nil]
  · -- only a read hands something on
    simp only [Turn.HandsOnNothing, not_forall, not_lt] at hnothing
    obtain ⟨i, cl, bytes, hreads, hfits⟩ := hnothing
    obtain ⟨rfl, hcl⟩ : label = .readable i (.data bytes) ∧ s.clients.lookup i = some cl := by
      unfold Turn.reads at hreads
      split at hreads
      · next j bytes' =>
        obtain ⟨rfl, hcl, rfl⟩ := Turn.reads_readable hreads
        exact ⟨rfl, hcl⟩
      · cases hreads
    replace h : s.onReadable reserve depth i (.data bytes) = some t := h
    unfold onReadable at h
    rw [hcl] at h
    dsimp only at h
    rw [if_neg (not_lt.mpr hfits)] at h
    obtain ⟨w, hw, rfl⟩ := Option.map_eq_some_iff.mp h
    obtain ⟨v, hv, hw⟩ := Option.bind_eq_some_iff.mp hw
    obtain ⟨⟨commands, u⟩, hu, hrun⟩ := Option.bind_eq_some_iff.mp hv
    obtain ⟨cl', hcl', rfl⟩ := Option.map_eq_some_iff.mp hw
    have hreceived : Attends id executed (s.received i cl bytes) :=
      hs.step (W := fun _ => True) (.received hcl) (.received hreading hcl)
    obtain ⟨hmoves, hreading'⟩ := moves_of_takeInput hu
    have htaken := hreceived.step (W := fun _ => True) (.takeInput hu) hmoves
    obtain ⟨hran, hreading''⟩ := htaken.runCommands commands hreading' hrun
    have hanswered := hran.step (W := fun _ => True) (.answered cl' v) (.answered hreading'' hcl')
    -- the commands that were handed on are this client's, or another's
    by_cases heq : i = id
    · subst heq
      rw [if_pos rfl] at hanswered
      rw [hreads]
      dsimp only
      rwa [handedOnAtRead, if_neg (not_lt.mpr hfits), hu]
    · rw [if_neg heq] at hanswered
      have hnone : (Turn.readable i (.data bytes)).reads id s = none := if_neg heq
      rwa [hnone]

end Attends

/-! ### The run -/

namespace History

variable {h h' : History S} {P : Turn → History S → Prop} {commands : List RespValue} {rest : Bytes}

theorem Reaches.reachable (hreach : Reaches reserve depth id P h) :
    Reachable reserve depth h.server := by
  induction hreach with
  | start hs => exact .start hs
  | @turn h h' label _ _ hturn ih =>
    obtain ⟨t, ht, rfl⟩ := Option.map_eq_some_iff.mp hturn
    have hserver : ∀ x : History S, x.server = t → Reachable reserve depth x.server :=
      fun x hx => hx ▸ ih.turn label ht
    refine hserver _ ?_
    split <;> rfl

/-- A read from the client. What is read goes into the buffer, as many commands as are complete are taken out of it,
and all of these are executed, unless one of them closes. -/
theorem Follows.read (hfollows : Follows reserve id h commands rest) {cl : Client} {bytes : Bytes}
    (hcl : h.server.clients.lookup id = some cl) (hknown : id < h.server.nextClient)
    (hproceeds : (∃ rest', readInput reserve cl.inputBuffer bytes = .ok ([], rest')) ∨
      (cl.hasFlag .blocked = false ∧ (∀ c ∈ h.requests, isQuit c = false) ∧
        (cl.inputBuffer ++ bytes).length ≤ maxInputBuffer ∧
        ∀ commands t, (h.server.received id cl bytes).takeInput reserve id = some (commands, t) →
          t.GoesThrough depth id commands))
    (hread : h.server.onReadable reserve depth id (.data bytes) = some t) :
    ∃ commands' rest', Follows reserve id
      { server := t
        received := h.received ++ bytes
        executed := h.executed ++ h.server.handedOnAtRead reserve depth id cl bytes }
      commands' rest' := by
  have hinput := hfollows.input hcl
  rcases onReadable_spec hcl hread with ⟨hlong, hgone, hremoved⟩ | ⟨hfits, more, u, v, hu, hv, hvt⟩
  · -- the client has sent too much: it is removed, and its last read completes no command
    obtain ⟨rest', hnone⟩ := hproceeds.resolve_right fun hrest => absurd hrest.2.2.1 (not_le.mpr hlong)
    refine ⟨commands ++ [], rest', hfollows.drained_append (hinput ▸ hnone), ?_, ?_, ?_⟩
    · simp only [handedOnAtRead, if_pos hlong, List.append_nil]
      exact hfollows.executed
    · intro cl' hcl'
      rw [hgone] at hcl'
      cases hcl'
    · exact fun hlow => absurd (hremoved.nextClient.trans hlow) (not_le.mpr hknown)
  · obtain ⟨rest', cl', hreads, hclients, hrest', hflags, hnext, hreading⟩ := takeInput_received hu
    have hrun := Advances.runCommands more hreading hv
    have hlookup : u.clients.lookup id = some cl' := by rw [hclients, AList.lookup_insert]
    have hhanded : h.server.handedOnAtRead reserve depth id cl bytes = u.handedOn depth id more := by
      rw [handedOnAtRead, if_neg (not_lt.mpr hfits), hu]
    refine ⟨commands ++ more, rest', hfollows.drained_append (hinput ▸ hreads), ?_, ?_, ?_⟩
    · rw [hhanded, requests, List.map_append]
      show h.requests ++ _ = _
      rw [hfollows.executed]
      -- either the read completes no command, or the client is free and goes through those it completes
      rcases hproceeds with ⟨rest₁, hnone⟩ | ⟨hfree, hquit, -, hthrough⟩
      · obtain ⟨rfl, -⟩ := Prod.mk.inj (Except.ok.inj (hreads.symm.trans hnone))
        rw [List.append_nil]
        exact List.append_nil _
      · have hfree : u.clientHas id .blocked = false := by
          rw [clientHas, hlookup, Option.any_some, Client.hasFlag, hflags]
          exact hfree
        calc throughQuit commands ++ (u.handedOn depth id more).map Prod.snd
            = throughQuit commands ++ throughQuit more := by
              rw [handedOn_eq_throughQuit more hv hfree (hthrough more u hu)]
          _ = throughQuit (commands ++ more) :=
              (throughQuit_append commands more (hfollows.executed ▸ hquit)).symm
    · intro cl'' hcl''
      rcases (hrun.input.trans hvt).input hcl'' with ⟨cl₁, hcl₁, hsame⟩ | ⟨hlow, -, -⟩
      · obtain rfl := Option.some.inj (hlookup.symm.trans hcl₁)
        exact hsame.trans hrest'
      · exact absurd (hnext ▸ hlow) (not_le.mpr hknown)
    · intro hlow
      have hle : h.server.nextClient ≤ t.nextClient := hnext ▸ (hrun.input.trans hvt).nextClient
      exact absurd (hle.trans hlow) (not_le.mpr hknown)

/-- By induction on the run. -/
theorem Reaches.follows (hreach : Reaches reserve depth id (Proceeds reserve depth id) h) :
    ∃ commands rest, Follows reserve id h commands rest := by
  induction hreach with
  | start hs => exact ⟨[], [], follows_start hs⟩
  | @turn h h' label hreach hproceeds hturn ih =>
    obtain ⟨commands, rest, hfollows⟩ := ih
    obtain ⟨start, hstart, hmoves, -⟩ := hreach.reachable.moves
    obtain ⟨t, ht, rfl⟩ := Option.map_eq_some_iff.mp hturn
    -- a turn reads from the socket of the client, or leaves its input alone
    cases hreads : label.reads id h.server with
    | none => exact ⟨commands, rest, hfollows.skip (keepsInputOf_turn hreads ht)⟩
    | some x =>
      obtain ⟨cl, bytes⟩ := x
      have hthere := hproceeds cl bytes hreads
      unfold Turn.reads at hreads
      split at hreads
      · split at hreads
        · next heq =>
          subst heq
          obtain ⟨cl', hcl, heq⟩ := Option.map_eq_some_iff.mp hreads
          obtain ⟨rfl, rfl⟩ := Prod.mk.inj heq
          have hknown := (hmoves.exact hstart.exact).fresh (subscriptions_of_lookup hcl)
          exact hfollows.read hcl hknown hthere ht
        · cases hreads
      · cases hreads

end History

/-! ### Runs that proceed, as a test -/

/-- One command of a batch after the other. -/
theorem goesThrough_cons {command : RespValue} {commands : List RespValue} :
    s.GoesThrough depth id (command :: commands) ↔ commands = [] ∨
      if isQuit command then s.clientHas id .multi = false
      else ∀ u ∈ s.dispatch depth id command,
        u.clientHas id .blocked = false ∧ u.clientHas id .closeAsap = false ∧ u.GoesThrough depth id commands := by
  constructor
  · intro h
    -- of the last command nothing is asked
    by_cases hlast : commands = []
    · exact .inl hlast
    have hfirst := h [] command commands s rfl hlast (by simp) rfl
    refine .inr ?_
    cases hquit : isQuit command with
    | true => rwa [hquit] at hfirst
    | false =>
      rw [hquit, if_neg Bool.false_ne_true] at hfirst
      rw [if_neg Bool.false_ne_true]
      exact fun u hu => ⟨(hfirst u hu).1, (hfirst u hu).2, h.tail hquit hu⟩
  · intro h before command' after t heq hafter hbefore ht
    cases before with
    | nil =>
      -- what is asked of the first command
      obtain ⟨rfl, rfl⟩ := List.cons.inj heq
      obtain rfl := Option.some.inj ht
      have hfirst := h.resolve_left hafter
      split
      · next hquit => rwa [if_pos hquit] at hfirst
      · next hquit =>
        rw [if_neg hquit] at hfirst
        exact fun u hu => ⟨(hfirst u hu).1, (hfirst u hu).2.1⟩
    | cons first before =>
      -- what is asked of a later one, from the state after the first
      obtain ⟨rfl, rfl⟩ := List.cons.inj heq
      have hquit := hbefore command List.mem_cons_self
      have hrest := h.resolve_left (List.append_ne_nil_of_right_ne_nil _ (List.cons_ne_nil _ _))
      rw [hquit, if_neg Bool.false_ne_true] at hrest
      obtain ⟨u, hu, ht⟩ := Option.bind_eq_some_iff.mp ht
      exact (hrest u hu).2.2 before command' after t rfl hafter
        (fun c hc => hbefore c (List.mem_cons_of_mem _ hc)) ht

instance GoesThrough.decidable (depth : ℕ) (id : ClientId) :
    (commands : List RespValue) → (s : Server S) → Decidable (s.GoesThrough depth id commands)
  | [], _ => .isTrue (goesThrough_of_length_le_one (Nat.zero_le 1))
  | _ :: commands, _ =>
    have (u : Server S) := GoesThrough.decidable depth id commands u
    decidable_of_iff' _ goesThrough_cons

namespace History

variable {h h' : History S}

/-- Whether nothing has been read completely. -/
instance decidableReadsNothing {ε α β : Type} : (r : Except ε (List α × β)) → Decidable (∃ rest, r = .ok ([], rest))
  | .ok ([], rest) => .isTrue ⟨rest, rfl⟩
  | .ok (_ :: _, _) => .isFalse nofun
  | .error _ => .isFalse nofun

theorem proceeds_iff {label : Turn} : Proceeds reserve depth id label h ↔ ∀ x ∈ label.reads id h.server,
    (∃ rest, readInput reserve x.1.inputBuffer x.2 = .ok ([], rest)) ∨
      (x.1.hasFlag .blocked = false ∧ (∀ c ∈ h.requests, isQuit c = false) ∧
        (x.1.inputBuffer ++ x.2).length ≤ maxInputBuffer ∧
        ∀ y ∈ (h.server.received id x.1 x.2).takeInput reserve id, y.2.GoesThrough depth id y.1) := by
  simp only [Proceeds, Prod.forall, Option.mem_def]

instance Proceeds.decidable (reserve : Reserve) (depth : ℕ) (id : ClientId) (label : Turn) (h : History S) :
    Decidable (Proceeds reserve depth id label h) :=
  decidable_of_iff' _ proceeds_iff

/-- Callbacks one after another, as long as they proceed. -/
def run (reserve : Reserve) (depth : ℕ) (id : ClientId) : List Turn → History S → Option (History S)
  | [], h => some h
  | label :: labels, h =>
    if Proceeds reserve depth id label h then (h.turn reserve depth id label).bind (run reserve depth id labels)
    else none

/-- By induction on the callbacks. -/
theorem Reaches.run (labels : List Turn) : ∀ {h : History S}, Reaches reserve depth id (Proceeds reserve depth id) h →
    h.run reserve depth id labels = some h' → Reaches reserve depth id (Proceeds reserve depth id) h' := by
  induction labels with
  | nil => exact fun hreach hrun => Option.some.inj hrun ▸ hreach
  | cons label labels ih =>
    intro h hreach hrun
    rw [History.run, Option.ite_none_right_eq_some] at hrun
    obtain ⟨hproceeds, hrest⟩ := hrun
    obtain ⟨next, hnext, hrun⟩ := Option.bind_eq_some_iff.mp hrest
    exact ih (hreach.turn label hproceeds hnext) hrun

end History

end Requests

/-! ### Two runs -/

section Sample

open Sample

/-- A command, as a client sends it. -/
private def text (words : List String) : Bytes := bulkStringArray (words.map str)

end Sample

end Server

end RedisDb
