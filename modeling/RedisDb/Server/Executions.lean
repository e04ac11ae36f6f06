import RedisDb.Server.Interleavings

/-!
# Requests where they are executed

`history` lists the requests that a run executes. `executions` lists them with the server that executes each, so that
a condition on a run can ask of a request what depends on the server: which database its client has selected, say.

What the small steps keep, those that execute a request as far as it meets the condition, is kept by a run
(`Preserves.run`). It may speak of the server, and of the requests that have been executed. Each step may assume that the
server has been reached by small steps from a start.
-/

namespace RedisDb

variable {S : Type}

namespace Server

variable [Platform] [Double S] [Inhabited S] [LT S] [DecidableLT S] [BEq S]

/-- A request, with the server that executes it. -/
abbrev Execution (S : Type) : Type := Server S × Request

/-- The requests that the loop of `processClientInput` executes, each with the server before it. -/
def loopExecutions (depth : ℕ) (id : ClientId) : List RespValue → Server S → List (Execution S)
  | [], _ => []
  | command :: commands, s =>
    if s.clientHas id .blocked then []
    else (if s.Handshakes id then [] else [(s, id, command)]) ++
      match s.dispatch depth id command with
      | none => []
      | some t => if t.clientHas id .closeAsap then [] else loopExecutions depth id commands t

/-- The requests that a callback executes. -/
def Turn.executions (reserve : Reserve) (depth : ℕ) (s : Server S) : Turn → List (Execution S)
  | .readable id (.data bytes) =>
    match s.clients.lookup id with
    | none => []
    | some cl =>
      if maxInputBuffer < (cl.inputBuffer ++ bytes).length then []
      else
        match (s.received id cl bytes).takeInput reserve id with
        | none => []
        | some (commands, t) => t.loopExecutions depth id commands
  | _ => []

/-- The requests that a run executes. -/
def executions (reserve : Reserve) (depth : ℕ) : List Turn → Server S → List (Execution S)
  | [], _ => []
  | label :: labels, s =>
    label.executions reserve depth s ++
      match s.turn reserve depth label with
      | none => []
      | some t => executions reserve depth labels t

variable {reserve : Reserve} {depth : ℕ} {P : Execution S → Prop} {J : List (Execution S) → Server S → Prop}
  {h : List Request} {es : List (Execution S)} {s t : Server S} {id : ClientId}

/-- The server has been reached in small steps from a start, executing the requests of `h`; and these commands of a
client are still to come. -/
abbrev Reached (reserve : Reserve) (depth : ℕ) (h : List Request) (m : Option (ClientId × List RespValue))
    (s : Server S) : Prop := Interleaving reserve depth (fun _ _ _ => True) h m s

/-- **What the small steps keep**, one after another, of what has been executed and of the server, where requests are
executed as `P` allows them. -/
structure Preserves (reserve : Reserve) (depth : ℕ) (P : Execution S → Prop)
    (J : List (Execution S) → Server S → Prop) : Prop where
  callback {h : List Request} {l : List (Execution S)} {s t : Server S} {label : Turn} :
    Reached reserve depth h none s → J l s → label.HandsOnNothing s → s.turn reserve depth label = some t → J l t
  read {h : List Request} {l : List (Execution S)} {s t : Server S} {id : ClientId} {cl : Client} {bytes : Bytes}
    {commands : List RespValue} : Reached reserve depth h none s → J l s → s.clients.lookup id = some cl →
    (s.received id cl bytes).takeInput reserve id = some (commands, t) → J l t
  command {h : List Request} {l : List (Execution S)} {s t : Server S} {id : ClientId} {command : RespValue}
    {commands : List RespValue} {program : CommandM S id command} {r : Except Empty Unit} :
    Reached reserve depth h (some (id, command :: commands)) s → J l s → ¬s.Handshakes id → P (s, id, command) →
    executeCommand (callbacks depth) id command = .ok program → program.run s = some (r, t) →
    J (l ++ [(s, id, command)]) t
  handshake {h : List Request} {l : List (Execution S)} {s t : Server S} {id : ClientId} {command : RespValue}
    {commands : List RespValue} : Reached reserve depth h (some (id, command :: commands)) s → J l s →
    s.Handshakes id → s.syncWithMaster id command = some t → J l t
  answered {h : List Request} {l : List (Execution S)} {s : Server S} {id : ClientId} {cl : Client} :
    Reached reserve depth h (some (id, [])) s → J l s → s.clients.lookup id = some cl →
    J l { (if cl.hasPendingOutput then s.installWriteHandler id else s) with reading := none }

namespace Preserves

/-- What the steps of callbacks keep, the small steps keep. -/
theorem of_moves {I : Server S → Prop} (hI : ∀ {s t : Server S}, Moves s t → I s → I t) :
    Preserves reserve depth P fun _ => I where
  callback hs hkept _ hturn := by
    obtain ⟨-, -, -, hreading⟩ := hs.moves
    exact hI (moves_of_turn hreading hturn).1 hkept
  read hs hkept hcl hinput := by
    obtain ⟨-, -, -, hreading⟩ := hs.moves
    exact hI (.trans (.received hreading hcl) (moves_of_takeInput hinput).1) hkept
  command {_ _ _ _ _ _ _ program _} hs hkept _ _ _ hrun := by
    obtain ⟨-, -, -, hreading⟩ := hs.moves
    exact hI (.does (by simpa using hreading) (program.within hrun)) hkept
  handshake hs hkept _ hsync := by
    obtain ⟨-, -, -, hreading⟩ := hs.moves
    exact hI (Advances.syncWithMaster hreading hsync).moves hkept
  answered hs hkept hcl := by
    obtain ⟨-, -, -, hreading⟩ := hs.moves
    exact hI (.answered hreading hcl) hkept

/-- So they lead on from every server. -/
theorem moves (s : Server S) : Preserves reserve depth P fun _ => Moves s := of_moves fun h hs => hs.trans h

variable (hJ : Preserves reserve depth P J)

include hJ

/-- One command is executed, or taken as a reply of the master. -/
theorem dispatch {command : RespValue} {commands : List RespValue}
    (hs : Reached reserve depth h (some (id, command :: commands)) s) (hfree : s.clientHas id .blocked = false)
    (hkept : J es s) (hP : ¬s.Handshakes id → P (s, id, command)) (hdispatch : s.dispatch depth id command = some t) :
    J (es ++ if s.Handshakes id then [] else [(s, id, command)]) t ∧
      ∃ h', Reached reserve depth h' (some (id, t.remaining id commands)) t := by
  obtain ⟨cl, hcl, ht⟩ := Option.bind_eq_some_iff.mp hdispatch
  have hlink : s.Handshakes id ↔ cl.hasFlag .master ∧ s.replState ≠ .connected := by
    rw [Handshakes, clientHas, hcl]
    rfl
  -- the link that is being set up takes the line, otherwise it is executed
  split at ht
  · next hyes =>
    rw [if_pos (hlink.mpr hyes), List.append_nil]
    exact ⟨hJ.handshake hs hkept (hlink.mpr hyes) ht, _, hs.handshake hfree (hlink.mpr hyes) ht⟩
  · next hno =>
    have hexecuted : ¬s.Handshakes id := mt hlink.mp hno
    rw [if_neg hexecuted]
    split at ht
    · cases ht
    · next program hprogram =>
      obtain ⟨⟨r, t'⟩, hrun, rfl⟩ := Option.map_eq_some_iff.mp ht
      exact ⟨hJ.command hs hkept hexecuted (hP hexecuted) hprogram hrun, _,
        hs.command hfree hexecuted trivial hprogram hrun⟩

/-- The loop of `processClientInput`. By induction on the commands. -/
theorem runCommands (commands : List RespValue) : ∀ {h : List Request} {es : List (Execution S)} {s : Server S},
    Reached reserve depth h (some (id, commands)) s → J es s → s.runCommands depth id commands = some t →
    (∀ x ∈ s.loopExecutions depth id commands, P x) →
    J (es ++ s.loopExecutions depth id commands) t ∧ ∃ h', Reached reserve depth h' (some (id, [])) t := by
  induction commands with
  | nil =>
    intro h es s hs hkept hrun _
    obtain rfl := Option.some.inj hrun
    rw [loopExecutions, List.append_nil]
    exact ⟨hkept, h, hs⟩
  | cons command commands ih =>
    intro h es s hs hkept hrun hP
    rw [loopExecutions] at hP ⊢
    rcases runCommands_cons hrun with ⟨hblocked, rfl⟩ | ⟨hfree, u, hu, hrest⟩
    · -- a client that is blocked runs no more of its commands
      rw [if_pos hblocked, List.append_nil]
      exact ⟨hkept, h, hs.dropped hblocked⟩
    -- the first command, and the history after it
    rw [hfree, if_neg Bool.false_ne_true, hu] at hP ⊢
    obtain ⟨hkept', h', hu'⟩ := hJ.dispatch hs hfree hkept (fun hexecuted => by
      refine hP (s, id, command) (List.mem_append_left _ ?_)
      rw [if_neg hexecuted]
      exact List.mem_singleton_self _) hu
    rw [← List.append_assoc]
    dsimp only at hP ⊢
    rcases hrest with ⟨hclose, rfl⟩ | ⟨hopen, hrest⟩
    · -- the commands behind one that closes the connection are not run
      rw [remaining, if_pos hclose] at hu'
      rw [if_pos hclose, List.append_nil]
      exact ⟨hkept', h', hu'⟩
    · rw [remaining, hopen, if_neg Bool.false_ne_true] at hu'
      rw [hopen, if_neg Bool.false_ne_true] at hP ⊢
      exact ih hu' hkept' hrest fun x hx => hP x (List.mem_append_right _ hx)

/-- A callback. -/
theorem turn {label : Turn} (hs : Reached reserve depth h none s) (hkept : J es s)
    (hturn : s.turn reserve depth label = some t) (hP : ∀ x ∈ label.executions reserve depth s, P x) :
    J (es ++ label.executions reserve depth s) t ∧ ∃ h', Reached reserve depth h' none t := by
  have hcalm (hnothing : label.HandsOnNothing s) : J (es ++ []) t ∧ ∃ h', Reached reserve depth h' none t :=
    ⟨(List.append_nil es).symm ▸ hJ.callback hs hkept hnothing hturn, h, hs.callback label hnothing hturn⟩
  unfold Turn.executions at hP ⊢
  split at hP
  · next id bytes =>
    cases hcl : s.clients.lookup id with
    | none =>
      -- a client that is gone reads nothing
      refine hcalm fun i cl bytes' hreads => ?_
      cases hcl.symm.trans (Turn.reads_readable hreads).2.1
    | some cl =>
      rw [hcl] at hP
      dsimp only at hP ⊢
      split at hP
      · next hlong =>
        -- a query buffer that is too long closes the connection, and nothing is run
        rw [if_pos hlong]
        refine hcalm fun i cl' bytes' hreads => ?_
        obtain ⟨rfl, hcl', rfl⟩ := Turn.reads_readable hreads
        exact Option.some.inj (hcl.symm.trans hcl') ▸ hlong
      · next hfits =>
        -- the commands are run one after another, and the client gets a write handler
        replace hturn : s.onReadable reserve depth id (.data bytes) = some t := hturn
        unfold onReadable at hturn
        rw [hcl] at hturn
        dsimp only at hturn
        rw [if_neg hfits] at hturn
        obtain ⟨v, hv, rfl⟩ := Option.map_eq_some_iff.mp hturn
        obtain ⟨w, hw, hv⟩ := Option.bind_eq_some_iff.mp hv
        obtain ⟨⟨commands, u⟩, hu, hrun⟩ := Option.bind_eq_some_iff.mp hw
        obtain ⟨cl', hcl', rfl⟩ := Option.map_eq_some_iff.mp hv
        rw [if_neg hfits, hu]
        rw [hu] at hP
        obtain ⟨hkept', h', hran⟩ := hJ.runCommands commands (hs.read hcl (not_lt.mp hfits) hu)
          (hJ.read hs hkept hcl hu) hrun hP
        exact ⟨hJ.answered hran hkept' hcl', h', hran.answered hcl'⟩
  · next hnone =>
    -- the other callbacks hand on nothing
    refine hcalm fun id cl bytes hreads => ?_
    unfold Turn.reads at hreads
    split at hreads
    · next j bytes' => exact absurd rfl (hnone j bytes')
    · cases hreads

/-- **A run keeps what its steps keep.** By induction on the callbacks. -/
theorem run (labels : List Turn) : ∀ {h : List Request} {es : List (Execution S)} {s : Server S},
    Reached reserve depth h none s → J es s → s.run reserve depth labels = some t →
    (∀ x ∈ s.executions reserve depth labels, P x) → J (es ++ s.executions reserve depth labels) t := by
  induction labels with
  | nil =>
    intro h es s _ hkept hrun _
    obtain rfl := Option.some.inj hrun
    rwa [executions, List.append_nil]
  | cons label labels ih =>
    intro h es s hs hkept hrun hP
    obtain ⟨u, hu, ht⟩ := Option.bind_eq_some_iff.mp hrun
    rw [executions, hu] at hP ⊢
    obtain ⟨hkept', h', hs'⟩ := hJ.turn hs hkept hu fun x hx => hP x (List.mem_append_left _ hx)
    rw [← List.append_assoc]
    exact ih hs' hkept' ht fun x hx => hP x (List.mem_append_right _ hx)

end Preserves

end Server

end RedisDb
