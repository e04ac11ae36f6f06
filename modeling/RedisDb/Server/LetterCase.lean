import RedisDb.Server.SpuriousAborts
import RedisDb.Server.TraceBlind

/-!
# The letter case of command names

The registry finds a command by its name in any letter case. `executeCommand` looks at the name once more, to tell the
commands that a transaction does not queue, and there it compares the name as it is written. So `EXEC` and `exec` are
different within a transaction, and nowhere else (`letter_case_iff`).

Two requests are compared by running both from one state. A reply may quote the name, the log and the replicas get it
as it is written, and so does the queue: that is all that may differ (`Server.Alike`).

For the one direction the two programs run in lockstep. Up to the handler they do the same, a handler does not look at
the name of its command but to put it into a note of the trace or to wait with it (`lockstep_handler`), and what a
blocking pop does with its arguments leaves the first one out (`popPlan`). What comes after the handler writes the
name to three places that `Alike` does not compare.

For the other direction one request is queued and the other one is run, within a transaction. The commands that are
not queued all reply at once with something else than `QUEUED` (`answersNow_handler`), and the replies of a client are
compared in order, so the two runs are told apart by what the client is sent.
-/

namespace RedisDb

open RespSerializer EffectM Program

variable {S : Type}

/-- Two commands are the same up to the letter case of their names. -/
inductive Recased : List RespValue → List RespValue → Prop
  | refl (args) : Recased args args
  | named {name name' : RespValue} {n n' : Bytes} (args : List RespValue) : name.asString = .ok n →
      name'.asString = .ok n' → toUpper n = toUpper n' → Recased (name :: args) (name' :: args)

/-- Two replies are the same, but that one may quote a name where the other quotes another. -/
def Requoted (n n' d d' : Bytes) : Prop :=
  d = d' ∨ ∃ front back, d = front ++ n ++ back ∧ d' = front ++ n' ++ back

/-- Two clients are the same up to what has been put out, the command that is waited with, and the letter
case of the names in the queue. -/
def Client.Alike (cl cl' : Client) : Prop :=
  ∃ output blockCmd queue,
    cl' = { cl with outputBuffer := output, blockCmd := blockCmd, transactionQueue := queue } ∧
      List.Forall₂ Recased cl.transactionQueue queue

/-- The data of an `addReply` to a client. -/
def Event.replyTo (id : ClientId) : Event → Option Bytes
  | .reply i data => if i = id then some data else none
  | _ => none

namespace Server

/-- What a client has been replied. -/
def replies (id : ClientId) (s : Server S) : List Bytes := s.trace.filterMap (Event.replyTo id)

/-- Two servers have the same databases, clients with the same flags and the same transactions, and the same
replies, up to the letter case of a name. -/
structure Alike (n n' : Bytes) (s s' : Server S) : Prop where
  databases : s.databases = s'.databases
  clients : ∀ id, Option.Rel Client.Alike (s.clients.lookup id) (s'.clients.lookup id)
  replies : ∀ id, List.Forall₂ (Requoted n n') (s.replies id) (s'.replies id)

/-- Such servers before the command is logged. -/
structure Abreast (n n' : Bytes) (s s' : Server S) : Prop extends Alike n n' s s' where
  config : s.config = s'.config
  replicas : s.replicas = s'.replicas
  replId : s.replId = s'.replId
  backlog : s.backlog = s'.backlog

end Server

/-- Only replies reply. -/
theorem Event.replyTo_of_filter (id : ClientId) (trace : List Event) :
    (trace.filter Event.isReply).filterMap (replyTo id) = trace.filterMap (replyTo id) := by
  rw [List.filterMap_filter]
  congr 1
  funext e
  cases e <;> rfl

/-- The same reply. -/
theorem Requoted.refl (n n' d : Bytes) : Requoted n n' d d := .inl rfl

/-- An error that quotes the name. -/
theorem Requoted.error (n n' front back : Bytes) :
    Requoted n n' (RespSerializer.error (front ++ n ++ back)) (RespSerializer.error (front ++ n' ++ back)) :=
  .inr ⟨str "-ERR " ++ front, back ++ CRLF, by simp [RespSerializer.error], by simp [RespSerializer.error]⟩

/-- The names change places. -/
theorem Requoted.symm {n n' d d' : Bytes} (h : Requoted n n' d d') : Requoted n' n d' d :=
  h.imp Eq.symm fun ⟨front, back, hd, hd'⟩ => ⟨front, back, hd', hd⟩

/-- The names change places. -/
theorem Recased.symm {args args' : List RespValue} (h : Recased args args') : Recased args' args := by
  cases h with
  | refl args => exact .refl args
  | named args hn hn' hcase => exact .named args hn' hn hcase.symm

/-- The clients change places. -/
theorem Client.Alike.symm {cl cl' : Client} (h : cl.Alike cl') : cl'.Alike cl := by
  obtain ⟨output, blockCmd, queue, rfl, hqueue⟩ := h
  exact ⟨_, _, _, rfl, hqueue.flip.imp fun _ _ => Recased.symm⟩

/-- A client is like itself. -/
theorem Client.Alike.refl (cl : Client) : cl.Alike cl :=
  ⟨_, _, _, rfl, List.forall₂_same.mpr fun args _ => .refl args⟩

namespace Server

variable {n n' : Bytes} {s s' : Server S} {id : ClientId}

/-! ### Relations of states -/

namespace Alike

/-- The servers change places. -/
theorem symm (h : Alike n n' s s') : Alike n' n s' s where
  databases := h.databases.symm
  clients id := by
    have hsame := h.clients id
    generalize s.clients.lookup id = x at hsame ⊢
    generalize s'.clients.lookup id = x' at hsame ⊢
    cases hsame with
    | none => exact .none
    | some hcl => exact .some hcl.symm
  replies id := (h.replies id).flip.imp fun _ _ => Requoted.symm

/-- What differs in the trace is no reply, or is one to the same client. -/
theorem note {e e' : Event} (h : Alike n n' s s')
    (he : ∀ id, Option.Rel (Requoted n n') (e.replyTo id) (e'.replyTo id)) : Alike n n' (s.note e) (s'.note e') where
  databases := h.databases
  clients := h.clients
  replies id := by
    show List.Forall₂ _ ((s.trace ++ [e]).filterMap _) ((s'.trace ++ [e']).filterMap _)
    rw [List.filterMap_append, List.filterMap_append]
    refine List.rel_append (h.replies id) ?_
    have hsame := he id
    simp only [List.filterMap_cons, List.filterMap_nil]
    generalize e.replyTo id = x at hsame ⊢
    generalize e'.replyTo id = x' at hsame ⊢
    cases hsame with
    | none => exact .nil
    | some hd => exact .cons hd .nil

/-- A change that is alike for clients that are. -/
theorem updateClient {f f' : Client → Client} (h : Alike n n' s s')
    (hf : ∀ cl cl' : Client, cl.Alike cl' → (f cl).Alike (f' cl')) :
    Option.Rel (Alike n n') (s.updateClient id f) (s'.updateClient id f') := by
  refine (h.clients id).map fun cl cl' hcl => ⟨h.databases, fun i => ?_, h.replies⟩
  rw [UnorderedMap.lookup_insert_eq_ite, UnorderedMap.lookup_insert_eq_ite]
  split
  · exact .some (hf cl cl' hcl)
  · exact h.clients i

/-- A reply that may quote the name. -/
theorem addReply {data data' : Bytes} (h : Alike n n' s s') (hdata : Requoted n n' data data') :
    Option.Rel (Alike n n') (s.addReply id data) (s'.addReply id data') := by
  refine (h.updateClient fun cl cl' hcl => ?_).map fun t t' ht => ht.note fun i => ?_
  · obtain ⟨output, blockCmd, queue, rfl, hqueue⟩ := hcl
    exact ⟨output ++ data', blockCmd, queue, rfl, hqueue⟩
  · show Option.Rel _ (if id = i then some data else none) (if id = i then some data' else none)
    split
    · exact .some hdata
    · exact .none

end Alike

/-- Servers that differ in what is no reply. -/
theorem Abreast.of_sameReplies (h : SameReplies s s') : Abreast n n' s s' := by
  obtain ⟨trace, htrace⟩ := h
  -- the replies are read off the trace, where the other events do not count
  have hreplies (id : ClientId) : s.replies id = trace.filterMap (Event.replyTo id) := by
    rw [← Event.replyTo_of_filter, htrace, Event.replyTo_of_filter]
    rfl
  exact
    { databases := rfl
      clients := fun id => by
        show Option.Rel _ (s.clients.lookup id) (s.clients.lookup id)
        cases s.clients.lookup id with
        | none => exact .none
        | some cl => exact .some (.refl cl)
      replies := fun id => by
        show List.Forall₂ _ _ (trace.filterMap (Event.replyTo id))
        rw [hreplies id]
        exact List.forall₂_same.mpr fun d _ => .refl n n' d
      config := rfl
      replicas := rfl
      replId := rfl
      backlog := rfl }

/-! ### The log -/

/-- What the replicas are sent is no reply. By induction on the replicas. -/
theorem Alike.replyToReplicas {writer : ClientId} {data data' : Bytes} (ids : List ClientId) :
    ∀ {s s' : Server S}, Alike n n' s s' → Option.Rel (Alike n n') (Server.replyToReplicas writer data ids s)
      (Server.replyToReplicas writer data' ids s') := by
  induction ids with
  | nil => exact fun h => .some h
  | cons id ids ih =>
    refine fun h => ((h.updateClient fun cl cl' hcl => ?_).map fun t t' ht => ht.note fun _ => .none).bind
      fun _ _ => ih
    obtain ⟨output, blockCmd, queue, rfl, hqueue⟩ := hcl
    exact ⟨output ++ data', blockCmd, queue, rfl, hqueue⟩

section Log

variable {name name' : RespValue} (args : List RespValue) (hname : name.asString = .ok n)
  (hname' : name'.asString = .ok n')

include hname

/-- The texts of a command with its name. -/
theorem mapM_asString_cons :
    (name :: args).mapM RespValue.asString = (args.mapM RespValue.asString).map (n :: ·) := by
  rw [List.mapM_cons, hname]
  cases args.mapM RespValue.asString <;> rfl

include hname'

/-- The append-only file gets the name as it is written. -/
theorem Abreast.appendToAof (h : Abreast n n' s s') :
    (s.appendToAof (name :: args)).1 = (s'.appendToAof (name' :: args)).1 ∧
      Abreast n n' (s.appendToAof (name :: args)).2 (s'.appendToAof (name' :: args)).2 := by
  unfold Server.appendToAof
  rw [h.config, mapM_asString_cons args hname, mapM_asString_cons args hname']
  split
  · cases args.mapM RespValue.asString with
    | error e => exact ⟨rfl, h⟩
    | ok texts =>
      refine ⟨rfl, ?_⟩
      simp only [Except.map, reduceCtorEq, if_false]
      exact
        { databases := h.databases, clients := h.clients, replies := h.replies, config := rfl
          replicas := h.replicas, replId := h.replId, backlog := h.backlog }
  · exact ⟨rfl, h⟩

/-- So do the backlog and the replicas. -/
theorem Abreast.propagateToReplicas (h : Abreast n n' s s') (writer : ClientId) :
    Option.Rel (SameOutcome Eq (Alike n n')) (s.propagateToReplicas writer (name :: args))
      (s'.propagateToReplicas writer (name' :: args)) := by
  unfold Server.propagateToReplicas
  rw [h.replicas, h.replId, h.backlog, mapM_asString_cons args hname, mapM_asString_cons args hname']
  split
  · exact .some (.ok rfl h.toAlike)
  · cases args.mapM RespValue.asString with
    | error e => exact .some (.error h.toAlike)
    | ok texts =>
      have hfed : Alike n n' (s.feedReplicationBacklog (replicationText (n :: texts)))
          (s'.feedReplicationBacklog (replicationText (n' :: texts))) := ⟨h.databases, h.clients, h.replies⟩
      exact (hfed.replyToReplicas s'.replicas).map fun _ _ h => .ok rfl h

/-- The three places together. -/
theorem Abreast.logWrite (h : Abreast n n' s s') (writer : ClientId) :
    Option.Rel (SameOutcome Eq (Alike n n')) (s.logWrite writer (name :: args))
      (s'.logWrite writer (name' :: args)) := by
  obtain ⟨heq, happended⟩ := h.appendToAof args hname hname'
  unfold Server.logWrite
  generalize s.appendToAof (name :: args) = x at heq happended ⊢
  generalize s'.appendToAof (name' :: args) = x' at heq happended ⊢
  obtain ⟨r, t⟩ := x
  obtain ⟨r', t'⟩ := x'
  obtain rfl : r = r' := heq
  cases r with
  | error e => exact .some (.error happended.toAlike)
  | ok _ => exact happended.propagateToReplicas args hname hname' writer

/-- **The log differs in the name only**, and what the clients are sent otherwise does not. -/
theorem Abreast.complete (h : Abreast n n' s s') (writer : ClientId) (writes : Bool) :
    Option.Rel (SameOutcome Eq (Alike n n')) (s.complete writer writes (name :: args))
      (s'.complete writer writes (name' :: args)) := by
  have hnoted : Abreast n n' (s.note (.completed writes (name :: args))) (s'.note (.completed writes (name' :: args))) :=
    { toAlike := h.toAlike.note fun _ => .none, config := h.config, replicas := h.replicas
      replId := h.replId, backlog := h.backlog }
  cases writes with
  | true => exact hnoted.logWrite args hname hname' writer
  | false => exact .some (.ok rfl hnoted.toAlike)

end Log

/-! ### Handlers -/

section Handlers

variable [Platform] {k : Option RespValue} {c : ClientId} {α : Type}

omit [Platform] in
/-- What handlers call leaves those who wait as they are. -/
theorem robust_popsWait : Robust (S := S) PopsWait :=
  .of_steps (fun _ => robust_calm) Calm.refl fun _ _ h => h.pops (W := fun _ => True) (B := fun _ _ => True)

/-- So does what is done to a database. -/
theorem keeps_popsWait_onDatabase (p : DbM S α) :
    (onDatabase p : EffectM S k (some c) Exn α).Keeps PopsWait :=
  Robust.keeps_onDatabase fun i s hs r t hrun =>
    (calm_onDatabaseAt (W := fun _ => True) (B := fun _ _ => True) i p s (.refl s) r t hrun).pops hs

/-- The states of two runs of one push. -/
def SamePush (s s' : Server S) : Prop := SameReplies s s' ∧ s.PopsWait

/-- A push does not depend on the name of its command, of which it only puts a note into the trace. -/
theorem lockstep_pushGeneric {wake : Bytes → ServerM S c Unit}
    (hwake : ∀ key, (wake key).Lockstep SamePush SamePush Eq (wake key)) (name name' : RespValue)
    (args : List RespValue) (left : Bool) :
    (pushGeneric wake (name :: args) left).Lockstep SamePush SamePush Eq (pushGeneric wake (name' :: args) left) := by
  have hsame : (pushElements (name :: args) left : DbM S _) = pushElements (name' :: args) left := rfl
  refine .seq ((lockstep_note (fun _ => rfl) fun _ => rfl).and_keeps robust_popsWait.keeps_modify) fun _ =>
    .seq ?_ fun pushed => .seq ?_ fun _ => ?_
  · rw [hsame]
    exact (sameData_sameReplies.lockstep_onDatabase (.of_run_eq fun _ => rfl)).and_keeps
      (keeps_popsWait_onDatabase _)
  · exact (lockstep_addReply _).and_keeps (robust_popsWait.keeps_addReply _)
  · obtain ⟨_, _ | key⟩ := pushed
    · exact .pure rfl
    · exact hwake key

/-- What the arguments of a blocking pop come to: a reply, or the keys to look at and the timeout. -/
def popPlan (last? : Option RespValue) (keys : List RespValue) : Option (Except Exn (Bytes ⊕ List Bytes × ℤ)) :=
  last?.map fun last =>
    match converted stoll last with
    | none => .ok (.inl (error (str "timeout is not an integer or out of range")))
    | some timeout =>
      if timeout < 0 then .ok (.inl (error (str "timeout is negative")))
      else (keys.mapM RespValue.asString).map fun keys => .inr (keys, asInt64 (timeout * 1000))

/-- A program does what the arguments of a blocking pop come to. -/
inductive FollowsPlan (args : List RespValue) (left : Bool) :
    Option (Except Exn (Bytes ⊕ List Bytes × ℤ)) → DbM S (PopOutcome args) → Prop
  | undefined : FollowsPlan args left none .undefined
  | raise (e : Exn) : FollowsPlan args left (some (.error e)) (.raise e)
  | reply (data : Bytes) : FollowsPlan args left (some (.ok (.inl data))) (pure (.reply data))
  | block (keys : List Bytes) (timeout : ℤ) (strings : ∀ a ∈ args.drop 1, a.IsString) :
      FollowsPlan args left (some (.ok (.inr (keys, timeout)))) do
        match ← popFirst left keys with
        | some reply => return .reply reply
        | none => return .block keys timeout strings

/-- `bpopGeneric` follows the plan of its arguments. -/
theorem followsPlan_bpopGeneric (args : List RespValue) (left : Bool) :
    FollowsPlan (S := S) args left (popPlan args.getLast? (blockingKeys args)) (bpopGeneric args left) := by
  -- the plan makes the same choices, in the same order
  generalize hplan : popPlan args.getLast? (blockingKeys args) = plan
  unfold bpopGeneric
  split
  · next hlast =>
    rw [hlast] at hplan
    exact hplan ▸ .undefined
  · next last hlast =>
    rw [hlast, popPlan, Option.map_some] at hplan
    split
    · next htimeout =>
      rw [htimeout] at hplan
      exact hplan ▸ .reply _
    · next timeout htimeout =>
      rw [htimeout] at hplan
      dsimp only at hplan
      split
      · next hneg =>
        rw [if_pos hneg] at hplan
        exact hplan ▸ .reply _
      · next hpos =>
        rw [if_neg hpos] at hplan
        split
        · next e hread =>
          rw [hread] at hplan
          exact hplan ▸ .raise e
        · next keys hread =>
          rw [hread] at hplan
          exact hplan ▸ .block keys _ _

/-- What a blocking pop comes to does not depend on its name. -/
inductive SamePop {args args' : List RespValue} : PopOutcome args → PopOutcome args' → Prop
  | reply (data : Bytes) : SamePop (.reply data) (.reply data)
  | block (keys : List Bytes) (timeout : ℤ) {h h'} : SamePop (.block keys timeout h) (.block keys timeout h')

/-- Two pops with the same plan do the same. -/
theorem lockstep_bpopGeneric {args args' : List RespValue} (left : Bool) (hlast : args.getLast? = args'.getLast?)
    (hkeys : blockingKeys args = blockingKeys args') :
    (bpopGeneric args left : DbM S _).Lockstep Eq Eq SamePop (bpopGeneric args' left : DbM S _) := by
  have hplan := followsPlan_bpopGeneric (S := S) args left
  have hplan' := followsPlan_bpopGeneric (S := S) args' left
  rw [hlast, hkeys] at hplan
  generalize bpopGeneric args left = p at hplan ⊢
  generalize bpopGeneric args' left = p' at hplan' ⊢
  generalize popPlan args'.getLast? (blockingKeys args') = plan at hplan hplan'
  -- both follow one plan, which the last argument and the keys determine
  cases hplan with
  | undefined =>
    cases hplan'
    exact .undefined
  | raise e =>
    cases hplan'
    exact fun _ _ hs => .some (.error hs)
  | reply data =>
    cases hplan'
    exact .pure (.reply data)
  | block keys timeout strings =>
    cases hplan'
    refine .seq (.of_run_eq fun _ => rfl) fun popped => ?_
    cases popped with
    | some reply => exact .pure (.reply reply)
    | none => exact .pure (.block keys timeout)

omit [Platform] in
/-- A client blocks with one command or another. -/
theorem abreast_blockClient (keys : List Bytes) (timeout : ℤ) (cmd cmd' : RespValue) (s : Server S) :
    Option.Rel (Abreast n n') (s.blockClient c keys timeout cmd []) (s.blockClient c keys timeout cmd' []) := by
  unfold blockClient
  cases s.clients.lookup c with
  | none => exact .none
  | some cl =>
    generalize blockDeadline timeout s = x
    obtain ⟨deadline, t⟩ := x
    -- the two commands are in the trace too, but not as replies
    refine .some ⟨.note ⟨rfl, fun id => ?_, fun id => List.forall₂_same.mpr fun d _ => .refl n n' d⟩ fun _ => .none,
      rfl, rfl, rfl, rfl⟩
    dsimp only
    rw [UnorderedMap.lookup_insert_eq_ite, UnorderedMap.lookup_insert_eq_ite]
    split
    · exact .some ⟨_, _, _, rfl, List.forall₂_same.mpr fun args _ => .refl args⟩
    · cases AList.lookup id _ with
      | none => exact .none
      | some cl => exact .some (.refl cl)

/-- So a blocking pop depends on its name only for what a client waits with. -/
theorem lockstep_blockingPop_recased {args : List RespValue} (hargs : args ≠ []) (name name' : RespValue)
    (left : Bool) : (blockingPop left c (name :: args) : ServerM S c Unit).Lockstep Eq (Abreast n n') Eq
      (blockingPop left c (name' :: args)) := by
  have hrefl (s s' : Server S) (h : s = s') : Abreast n n' s s' := h ▸ .of_sameReplies (.refl s)
  have hlast : (name :: args).getLast? = (name' :: args).getLast? := by
    obtain ⟨arg, rest, rfl⟩ := List.exists_cons_of_ne_nil hargs
    rw [List.getLast?_cons_cons, List.getLast?_cons_cons]
  refine .bind (sameData_eq.lockstep_onDatabase (lockstep_bpopGeneric left hlast rfl)) hrefl
    fun outcome outcome' h => ?_
  cases h with
  | reply data =>
    exact (lockstep_addReply data).mono (fun s _ h => h ▸ .refl s) (fun _ _ h => h) fun _ _ => .of_sameReplies
  | block keys timeout => exact lockstep_call fun s _ h => h ▸ abreast_blockClient keys timeout _ _ s

variable [Double S] [Inhabited S] [LT S] [DecidableLT S] [BEq S] {name name' : RespValue} {args : List RespValue}
  {depth : ℕ}

/-- Who is woken by a push does not depend on its name. -/
theorem lockstep_callbacks_wake (depth : ℕ) (key : Bytes) :
    ((callbacks depth : Callbacks S).wake c key).Lockstep SamePush SamePush Eq ((callbacks depth).wake c key) := by
  have hkeeps : ((callbacks depth : Callbacks S).wake c key).Keeps PopsWait := fun s hs r t hrun =>
    ((callbacksCalm (W := fun _ => True) hs (issued_trivial s) depth).wake c key s (.refl s) r t hrun).pops hs
  cases depth with
  | zero => exact .undefined
  | succ depth =>
    exact ((lockstep_wake key).and_keeps hkeeps).mono (fun _ _ hs => ⟨hs, hs.2⟩) (fun _ _ h => h) fun _ _ h => h

/-- **A handler does not depend on the name of its command**, but for what is put into the trace and what a
client waits with. -/
theorem lockstep_handler (cmd : Command) (hargs : args ≠ [] ∨ cmd ≠ .blpop ∧ cmd ≠ .brpop) :
    (cmd.handler (callbacks depth : Callbacks S) c (name :: args)).Lockstep
      (fun s s' => s = s' ∧ s.PopsWait) (Abreast n n') Eq (cmd.handler (callbacks depth) c (name' :: args)) := by
  -- the pushes, the blocking pops and `ZADD` keep or note the name; the other handlers are the same program
  have hwake := lockstep_callbacks_wake (S := S) (c := c) depth
  have hpush (left : Bool) := lockstep_pushGeneric hwake name name' args left
  have hpushed {p q : ServerM S c Unit} (h : p.Lockstep SamePush SamePush Eq q) :
      p.Lockstep (fun s s' => s = s' ∧ s.PopsWait) (Abreast n n') Eq q :=
    h.mono (fun s s' hs => ⟨hs.1 ▸ .refl s, hs.2⟩) (fun _ _ h => h) fun _ _ hs => .of_sameReplies hs.1
  have hsame {p q : ServerM S c Unit} (h : p = q) :
      p.Lockstep (fun s s' => s = s' ∧ s.PopsWait) (Abreast n n') Eq q :=
    (Lockstep.of_run_eq fun s => by rw [h]).mono (fun _ _ hs => hs.1) (fun _ _ h => h)
      fun s _ hs => hs ▸ .of_sameReplies (.refl s)
  have hpop (left : Bool) (hargs : args ≠ []) :
      (blockingPop left c (name :: args) : ServerM S c Unit).Lockstep (fun s s' => s = s' ∧ s.PopsWait)
        (Abreast n n') Eq (blockingPop left c (name' :: args)) :=
    (lockstep_blockingPop_recased hargs name name' left).mono (fun _ _ hs => hs.1) (fun _ _ h => h) fun _ _ h => h
  cases cmd with
  | lpush => exact hpushed (hpush true)
  | rpush => exact hpushed (.seq (hpush false) fun _ => hpush false)
  | blpop => exact hpop true (hargs.resolve_right fun h => h.1 rfl)
  | brpop => exact hpop false (hargs.resolve_right fun h => h.2 rfl)
  | zadd =>
    -- both take the same seed from the generator
    have hdraw (s s' : Server S) (hs : SameReplies s s') :
        s.freshRng.1 = s'.freshRng.1 ∧ SameReplies s.freshRng.2 s'.freshRng.2 := by
      obtain ⟨trace, h⟩ := hs
      exact ⟨rfl, trace, h⟩
    have hzadd : (zaddHandler c (name :: args) : ServerM S c Unit).Lockstep SameReplies SameReplies Eq
        (zaddHandler c (name' :: args)) :=
      .seq (lockstep_note (fun _ => rfl) fun _ => rfl) fun _ => .seq (lockstep_draw hdraw) fun rng =>
        .seq (sameData_sameReplies.lockstep_onDatabase (.of_run_eq fun _ => rfl)) fun _ => lockstep_addReply _
    exact hzadd.mono (fun s _ hs => hs.1 ▸ .refl s) (fun _ _ h => h) fun _ _ => .of_sameReplies
  | _ => exact hsame rfl

/-! ### `executeCommand` -/

omit [Double S] [Inhabited S] [LT S] [DecidableLT S] [BEq S] in
/-- Two replies that quote the names. -/
theorem lockstep_addReply_requoted {k k' : Option RespValue} {data data' : Bytes} (hdata : Requoted n n' data data') :
    (EffectM.addReply data : EffectM S k (some c) Empty Unit).Lockstep (Alike n n') (Alike n n') Eq
      (EffectM.addReply data' : EffectM S k' (some c) Empty Unit) :=
  lockstep_call fun _ _ hs => hs.addReply hdata

/-- **A handler, and what comes after it.** -/
theorem lockstep_runHandler_recased (hname : name.asString = .ok n) (hname' : name'.asString = .ok n')
    (cmd : Command) (hargs : args ≠ [] ∨ cmd ≠ .blpop ∧ cmd ≠ .brpop) :
    (runHandler (c := c) (callbacks depth : Callbacks S) cmd ⟨n, hname⟩ args).Lockstep
      (fun s s' => s = s' ∧ s.PopsWait) (Alike n n') Eq
        (runHandler (c := c) (callbacks depth) cmd ⟨n', hname'⟩ args) := by
  have hcount {k k' : Option RespValue} : (incrementCommandsProcessed : EffectM S k (some c) Exn Unit).Lockstep
      (Abreast n n') (Abreast n n') Eq (incrementCommandsProcessed : EffectM S k' (some c) Exn Unit) :=
    fun _ _ h => .some (.ok rfl
      { databases := h.databases, clients := h.clients, replies := h.replies, config := h.config
        replicas := h.replicas, replId := h.replId, backlog := h.backlog })
  refine .handle (.bind (lockstep_handler cmd hargs).lift (fun _ _ h => h.toAlike) fun _ _ _ =>
    .bind hcount (fun _ _ h => h.toAlike) fun _ _ _ => ?_) (fun _ _ h => h)
    fun e => lockstep_addReply_requoted (.refl n n' _)
  exact fun s s' hs => hs.complete args hname hname' c (.write ∈ cmd.flags)

omit [Platform] [Double S] [Inhabited S] [LT S] [DecidableLT S] [BEq S] in
/-- The same state. -/
theorem Alike.of_eq (h : s = s') : Alike n n' s s' :=
  (Abreast.of_sameReplies (h ▸ .refl s)).toAlike

omit [Double S] [Inhabited S] [LT S] [DecidableLT S] [BEq S] in
/-- Eviction wakes nobody. -/
theorem keeps_popsWait_outOfMemory (cmd : Command) :
    (outOfMemory cmd : EffectM S k (some c) Empty Bool).Keeps PopsWait :=
  Robust.keeps_outOfMemory fun _ _ _ i s hs r t hrun =>
    (calm_onDatabaseAt (W := fun _ => True) (B := fun _ _ => True) i _ s (.refl s) r t hrun).pops hs

omit [Platform] [Double S] [Inhabited S] [LT S] [DecidableLT S] [BEq S] in
/-- A blocking pop has arguments. -/
theorem ne_nil_of_accepts {cmd : Command} (h : cmd.accepts (asInt (args.length + 1)) = true) :
    args ≠ [] ∨ cmd ≠ .blpop ∧ cmd ≠ .brpop := by
  refine or_iff_not_imp_left.mpr fun hnil => ?_
  rw [not_ne_iff.mp hnil] at h
  exact ⟨by rintro rfl; exact absurd h (by decide), by rintro rfl; exact absurd h (by decide)⟩

/-- **Two requests that differ in the letter case of the name are alike**, if they are queued alike. The names are
upper-cased for the lookup, and quoted as they are in replies that say so. -/
theorem lockstep_executeNamed_recased (hname : name.asString = .ok n) (hname' : name'.asString = .ok n')
    (hcase : toUpper n = toUpper n')
    (hsame : ∀ cmd, Command.lookup n = some cmd → cmd.accepts (asInt (args.length + 1)) = true →
      runsInMulti n = runsInMulti n') :
    (executeNamed (c := c) (callbacks depth : Callbacks S) hname args).Lockstep (fun s s' => s = s' ∧ s.PopsWait)
      (Alike n n') Eq (executeNamed (c := c) (callbacks depth) hname' args) := by
  have hstart (s s' : Server S) (h : s = s' ∧ s.PopsWait) : Alike n n' s s' := .of_eq h.1
  have hlookup : Command.lookup n' = Command.lookup n := by rw [Command.lookup, Command.lookup, hcase]
  have hreply {data data' : Bytes} (hdata : Requoted n n' data data') :
      (EffectM.addReply data : CommandM S c (.array (name :: args))).Lockstep (fun s s' => s = s' ∧ s.PopsWait)
        (Alike n n') Eq (EffectM.addReply data' : CommandM S c (.array (name' :: args))) :=
    (lockstep_addReply_requoted hdata).mono hstart (fun _ _ h => h) fun _ _ h => h
  -- the table of commands is asked with a name in upper case, so both find the same entry
  unfold executeNamed
  rw [hlookup]
  cases hcmd : Command.lookup n with
  | none => exact hreply (.error n n' _ _)
  | some cmd =>
    refine .bind ((sameData_eq.lockstep_outOfMemory cmd).and_keeps (keeps_popsWait_outOfMemory cmd)) hstart
      fun _ _ heq => heq ▸ .ite (hreply (.refl n n' _)) ?_
    by_cases haccepts : cmd.accepts (asInt (args.length + 1)) = true
    · rw [haccepts, Bool.not_true, if_neg Bool.false_ne_true, if_neg Bool.false_ne_true]
      refine .bind ((sameData_eq.lockstep_client c).and_keeps Robust.keeps_client) hstart fun cl _ heq => heq ▸ ?_
      rw [← hsame cmd hcmd haccepts]
      refine .ite (.bind (lockstep_call fun s s' hs => ?_) (fun _ _ h => h) fun _ _ _ =>
        lockstep_addReply_requoted (.refl n n' _))
        (lockstep_runHandler_recased hname hname' cmd (ne_nil_of_accepts haccepts))
      -- the queue has the command under either name
      refine (hstart s s' hs).updateClient fun cl cl' hcl => ?_
      obtain ⟨output, blockCmd, queue, rfl, hqueue⟩ := hcl
      exact ⟨output, blockCmd, _, rfl, List.rel_append hqueue (.cons (.named args hname hname' hcase) .nil)⟩
    · rw [if_pos (by simpa using haccepts), if_pos (by simpa using haccepts)]
      exact hreply (.error n n' _ _)

/-! ### Queued and run -/

/-- A client has been replied something that is neither the reply to a command that is queued, nor this with
another name in it. -/
def AnswersNow (c : ClientId) (s t : Server S) : Prop :=
  ∃ d : Bytes, (d.head? = some 42 ∨ d.head? = some 45 ∨ d = simpleString (str "OK")) ∧
    s.trace ++ [.reply c d] <+: t.trace

section Answers

omit [Platform] [Double S] [Inhabited S] [LT S] [DecidableLT S] [BEq S]

variable {t u : Server S} {d : Bytes}

/-- What has been answered stays answered. -/
theorem AnswersNow.mono (h : AnswersNow c s t) (hgrows : t.trace <+: u.trace) : AnswersNow c s u := by
  obtain ⟨d, hd, hprefix⟩ := h
  exact ⟨d, hd, hprefix.trans hgrows⟩

/-- An array, an error or `OK` is such an answer. -/
theorem AnswersNow.of_addReply (hd : d.head? = some 42 ∨ d.head? = some 45 ∨ d = simpleString (str "OK"))
    (htrace : t.trace = s.trace) (h : t.addReply c d = some u) : AnswersNow c s u := by
  obtain ⟨v, hv, rfl⟩ := Option.map_eq_some_iff.mp h
  obtain ⟨cl, -, rfl⟩ := Option.map_eq_some_iff.mp hv
  exact ⟨d, hd, by rw [← htrace]; exact List.prefix_rfl⟩

/-- What is replied first is at its place. -/
theorem AnswersNow.exists_replies (h : AnswersNow c s t) :
    ∃ d ds, (d.head? = some 42 ∨ d.head? = some 45 ∨ d = simpleString (str "OK")) ∧
      t.replies c = s.replies c ++ d :: ds := by
  obtain ⟨d, hd, es, htrace⟩ := h
  refine ⟨d, es.filterMap (Event.replyTo c), hd, ?_⟩
  rw [replies, ← htrace, List.filterMap_append, List.filterMap_append, List.append_assoc]
  simp [replies, Event.replyTo]

/-- Such a reply does not become `QUEUED` with another name in the place of one that is not queued. -/
theorem not_requoted_queued (hn : runsInMulti n = true)
    (hd : d.head? = some 42 ∨ d.head? = some 45 ∨ d = simpleString (str "OK")) :
    ¬Requoted n n' d (simpleString (str "QUEUED")) := by
  have hqueued : (simpleString (str "QUEUED")).head? = some 43 := rfl
  -- none of the names begins with a mark of a reply, or with a letter of "OK"
  obtain ⟨b, rest, rfl, hmarks, hok⟩ : ∃ b rest, n = b :: rest ∧ (b ≠ 42 ∧ b ≠ 45) ∧ b ∉ simpleString (str "OK") := by
    have hmem : n ∈ [str "EXEC", str "DISCARD", str "MULTI", str "WATCH", str "UNWATCH"] := of_decide_eq_true hn
    simp only [List.mem_cons, List.not_mem_nil, or_false] at hmem
    rcases hmem with rfl | rfl | rfl | rfl | rfl <;> exact ⟨_, _, rfl, by decide, by decide⟩
  rintro (rfl | ⟨front, back, rfl, hfront⟩)
  · rcases hd with hd | hd | hd
    · exact absurd (hqueued.symm.trans hd) (by decide)
    · exact absurd (hqueued.symm.trans hd) (by decide)
    · exact absurd hd (by decide)
  · cases front with
    | nil =>
      rcases hd with hd | hd | hd
      · exact hmarks.1 (Option.some.inj hd)
      · exact hmarks.2 (Option.some.inj hd)
      · exact hok (hd ▸ List.mem_cons_self)
    | cons f front =>
      obtain rfl : (43 : UInt8) = f := Option.some.inj (hqueued.symm.trans (congrArg List.head? hfront))
      rcases hd with hd | hd | hd
      · exact absurd (Option.some.inj hd) (by decide)
      · exact absurd (Option.some.inj hd) (by decide)
      · refine hok (hd ▸ ?_)
        simp

end Answers

omit [Platform] [Double S] [Inhabited S] [LT S] [DecidableLT S] [BEq S] in
/-- To change a client is not to note anything. -/
theorem trace_updateClient {f : Client → Client} {t : Server S} {id : ClientId} (h : s.updateClient id f = some t) :
    t.trace = s.trace := by
  obtain ⟨cl, -, rfl⟩ := Option.map_eq_some_iff.mp h
  rfl

/-- **The commands that are not queued answer at once**, within a transaction too. `EXEC` begins with the header of
its array, or sends the null array; `MULTI` and `WATCH` refuse; the others answer `OK`. -/
theorem answersNow_handler (cb : Callbacks S) {cl : Client} {cmd : Command} (hcl : s.clients.lookup c = some cl)
    (hmulti : cl.hasFlag .multi = true) (hcmd : cmd ∈ [.exec, .discard, .multi, .watch, .unwatch]) :
    (cmd.handler cb c args).Post s fun _ t => AnswersNow c s t := by
  have herror (msg : Bytes) : (RespSerializer.error msg).head? = some 45 := rfl
  have hclient {β : Type} {f : Client → ServerM S c β} {Q : Except Exn β → Server S → Prop} (hf : (f cl).Post s Q) :
      (EffectM.client c >>= f).Post s Q := by
    refine (Program.post_bind _ _ _ _).mpr ((post_client _ _).mpr fun cl' hcl' => ?_)
    exact Option.some.inj (hcl.symm.trans hcl') ▸ hf
  have hok {f : Client → Client} {h h'} : (do
      call (Server.unwatch c) fun _ _ => .unwatch
      modifyClient c f h h'
      EffectM.addReply (simpleString (str "OK")) : ServerM S c Unit).Post s fun _ t => AnswersNow c s t := by
    refine (Program.post_bind _ _ _ _).mpr ((post_call _ _).mpr fun t ht => ?_)
    refine (Program.post_bind _ _ _ _).mpr ((post_call _ _).mpr fun u hu => ?_)
    refine (post_call _ _).mpr fun v hv => .of_addReply (.inr (.inr rfl)) ?_ hv
    exact (trace_updateClient hu).trans (silent_unwatch ht).trace
  simp only [List.mem_cons, List.not_mem_nil, or_false] at hcmd
  rcases hcmd with rfl | rfl | rfl | rfl | rfl
  · -- `EXEC` begins the reply with the header of the array or with the null array
    refine hclient ?_
    rw [hmulti, Bool.not_true, if_neg Bool.false_ne_true]
    refine (Program.post_bind _ _ _ _).mpr ((post_call _ _).mpr fun t ht => ?_)
    dsimp only
    split
    · exact (post_call _ _).mpr fun u hu => .of_addReply (.inl rfl) (trace_updateClient ht) hu
    · refine (Program.post_bind _ _ _ _).mpr ((post_call _ _).mpr fun u hu => ?_)
      have hheader : AnswersNow c s u := .of_addReply (.inl rfl) (trace_updateClient ht) hu
      exact Program.post_within _ fun r v hdoes => hheader.mono hdoes.grows.trace
  · refine hclient ?_
    rw [hmulti, Bool.not_true, if_neg Bool.false_ne_true]
    exact hok
  · refine hclient ?_
    rw [hmulti, if_pos rfl]
    exact (post_call _ _).mpr fun t ht => .of_addReply (.inr (.inl (herror _))) rfl ht
  · refine hclient ?_
    rw [hmulti, if_pos rfl]
    exact (post_call _ _).mpr fun t ht => .of_addReply (.inr (.inl (herror _))) rfl ht
  · exact hok

/-- What has been answered stays answered. -/
theorem answersNow_runHandler {cb : Callbacks S} {cmd : Command} (hname : name.IsString)
    (hhandler : (cmd.handler cb c (name :: args)).Post s fun _ t => AnswersNow c s t) :
    (runHandler (c := c) cb cmd hname args).Post s fun _ t => AnswersNow c s t := by
  have hstays {β ε : Type} {k : Option RespValue} {u : Server S} (p : EffectM S k (some c) ε β)
      (hu : AnswersNow c s u) : p.Post u fun _ t => AnswersNow c s t :=
    Program.post_within _ fun r v hdoes => hu.mono hdoes.grows.trace
  refine (Program.post_handle _ _ _ _).mpr ((Program.post_bind _ _ _ _).mpr ?_)
  refine Program.Post.mono ((Program.post_lift _ _ _).mpr hhandler) fun r u hu => ?_
  cases r with
  | error e => exact hstays _ hu
  | ok _ =>
    refine (hstays _ hu).mono fun r v hv => ?_
    cases r with
    | ok _ => exact hv
    | error e => exact hstays _ hv

omit [Platform] [Double S] [Inhabited S] [LT S] [DecidableLT S] [BEq S] in
/-- The commands that are not queued, by their names. -/
theorem exists_lookup_of_runsInMulti (h : runsInMulti n = true) :
    ∃ cmd ∈ [Command.exec, .discard, .multi, .watch, .unwatch], Command.lookup n = some cmd := by
  have hmem : n ∈ [str "EXEC", str "DISCARD", str "MULTI", str "WATCH", str "UNWATCH"] := of_decide_eq_true h
  simp only [List.mem_cons, List.not_mem_nil, or_false] at hmem
  rcases hmem with rfl | rfl | rfl | rfl | rfl
  · exact ⟨.exec, by decide, by decide +kernel⟩
  · exact ⟨.discard, by decide, by decide +kernel⟩
  · exact ⟨.multi, by decide, by decide +kernel⟩
  · exact ⟨.watch, by decide, by decide +kernel⟩
  · exact ⟨.unwatch, by decide, by decide +kernel⟩

/-- The two outcomes of a request under two names. -/
def SameOutcomes (n n' : Bytes) (x x' : Option (Except Empty Unit × Server S)) : Prop :=
  Option.Rel (fun x x' => Alike n n' x.2 x'.2) x x'

omit [Platform] [Double S] [Inhabited S] [LT S] [DecidableLT S] [BEq S] in
/-- The names change places. -/
theorem SameOutcomes.symm {x x' : Option (Except Empty Unit × Server S)} (h : SameOutcomes n n' x x') :
    SameOutcomes n' n x' x := by
  unfold SameOutcomes at h ⊢
  cases h with
  | none => exact .none
  | some hx => exact .some hx.symm

omit [Platform] in
/-- What is not queued under one of its names is no write. -/
theorem not_write_of_runsInMulti {cmd : Command} (hcmd : Command.lookup n = some cmd) (h : runsInMulti n = true) :
    .write ∉ cmd.flags ∧ cmd ∈ [Command.exec, .discard, .multi, .watch, .unwatch] := by
  obtain ⟨cmd', hmem, hcmd'⟩ := exists_lookup_of_runsInMulti h
  obtain rfl := Option.some.inj (hcmd.symm.trans hcmd')
  exact ⟨(by decide : ∀ cmd ∈ [Command.exec, .discard, .multi, .watch, .unwatch], .write ∉ cmd.flags) cmd hmem, hmem⟩

omit [Platform] [Double S] [Inhabited S] [LT S] [DecidableLT S] [BEq S] in
/-- Alike replies stand at the same places. -/
theorem Alike.requoted {t t' : Server S} {d d' : Bytes} {ds ds' : List Bytes} (h : Alike n n' t t')
    (hreplies : t.replies c = s.replies c ++ d :: ds) (hreplies' : t'.replies c = s.replies c ++ d' :: ds') :
    Requoted n n' d d' := by
  have hall := h.replies c
  rw [hreplies, hreplies'] at hall
  have hrest := List.forall₂_drop (s.replies c).length hall
  rw [List.drop_left, List.drop_left] at hrest
  exact (List.forall₂_cons.mp hrest).1

/-- **One is queued and the other is run**: they do not come to the same. -/
theorem not_sameOutcomes {cl : Client} {cmd : Command} (hname : name.asString = .ok n)
    (hname' : name'.asString = .ok n') (hcase : toUpper n = toUpper n') (hcl : s.clients.lookup c = some cl)
    (hmulti : cl.hasFlag .multi = true) (hcmd : Command.lookup n = some cmd)
    (haccepts : cmd.accepts (asInt (args.length + 1)) = true) (hruns : runsInMulti n = true)
    (hqueued : runsInMulti n' = false) :
    ¬SameOutcomes n n' ((executeNamed (c := c) (callbacks depth : Callbacks S) hname args).run s)
      ((executeNamed (c := c) (callbacks depth) hname' args).run s) := by
  obtain ⟨hread, hmem⟩ := not_write_of_runsInMulti hcmd hruns
  have hlookup : Command.lookup n' = some cmd := by rw [← hcmd, Command.lookup, Command.lookup, hcase]
  rw [Robust.executeNamed_run hname hcmd hread haccepts hcl fun _ => hruns,
    Robust.executeNamed_accepted hname' hlookup hread haccepts hcl, hmulti, hqueued, if_pos (by decide)]
  -- one has put the command into the queue
  obtain ⟨v, u, hv, hu, htrace⟩ := exists_update_reply
    (fun cl => { cl with transactionQueue := cl.transactionQueue ++ [name' :: args] }) (simpleString (str "QUEUED")) hcl
  rw [hv, Option.bind_some, hu, Option.map_some]
  have hreplies' : u.replies c = s.replies c ++ simpleString (str "QUEUED") :: [] := by
    rw [replies, htrace, List.filterMap_append]
    simp [replies, Event.replyTo]
  -- and the other has answered
  have hhandler : (cmd.handler (callbacks depth) c (name :: args)).Post s fun _ t => AnswersNow c s t :=
    answersNow_handler _ hcl hmulti hmem
  have hanswers := answersNow_runHandler ⟨n, hname⟩ hhandler
  -- the last reply of one is `QUEUED`, and the other's cannot be the same but for quoting
  intro hsame
  unfold SameOutcomes at hsame
  generalize hx : (runHandler (c := c) (callbacks depth) cmd ⟨n, hname⟩ args).run s = x at hsame
  cases hsame with
  | some halike =>
    obtain ⟨d, ds, hd, hreplies⟩ := (hanswers _ _ hx).exists_replies
    exact not_requoted_queued hruns hd (halike.requoted hreplies hreplies')

/-- **Two requests that differ in the letter case of the name come to the same, exactly if not one of them is
queued and the other is run.** -/
theorem sameOutcomes_iff {cl : Client} (hpops : s.PopsWait) (hcl : s.clients.lookup c = some cl)
    (hname : name.asString = .ok n) (hname' : name'.asString = .ok n') (hcase : toUpper n = toUpper n') :
    SameOutcomes n n' ((executeNamed (c := c) (callbacks depth : Callbacks S) hname args).run s)
        ((executeNamed (c := c) (callbacks depth) hname' args).run s) ↔
      (cl.hasFlag .multi = true → ∀ cmd, Command.lookup n = some cmd →
        cmd.accepts (asInt (args.length + 1)) = true → runsInMulti n = runsInMulti n') := by
  have hlookup : Command.lookup n' = Command.lookup n := by rw [Command.lookup, Command.lookup, hcase]
  have hsame {p : CommandM S c (.array (name :: args))} {q : CommandM S c (.array (name' :: args))}
      (h : p.Lockstep (fun s s' => s = s' ∧ s.PopsWait) (Alike n n') Eq q) : SameOutcomes n n' (p.run s) (q.run s) := by
    have hrel := h s s ⟨rfl, hpops⟩
    unfold SameOutcomes
    generalize p.run s = x at hrel ⊢
    generalize q.run s = x' at hrel ⊢
    cases hrel with
    | none => exact .none
    | some hx => exact .some (by cases hx <;> assumption)
  constructor
  · intro hboth hmulti cmd hcmd haccepts
    -- the two spellings are treated apart, so one of them is queued
    cases hruns : runsInMulti n with
    | true =>
      by_contra hqueued
      exact not_sameOutcomes hname hname' hcase hcl hmulti hcmd haccepts hruns (by simpa using Ne.symm hqueued) hboth
    | false =>
      by_contra hqueued
      exact not_sameOutcomes hname' hname hcase.symm hcl hmulti (hlookup.trans hcmd) haccepts
        (by simpa using Ne.symm hqueued) hruns hboth.symm
  · -- where they are treated apart, the client is not in a transaction, and both are executed
    intro hqueues
    by_cases hapart : ∃ cmd, Command.lookup n = some cmd ∧ cmd.accepts (asInt (args.length + 1)) = true ∧
        runsInMulti n ≠ runsInMulti n'
    · obtain ⟨cmd, hcmd, haccepts, hne⟩ := hapart
      have hfree : cl.hasFlag .multi = true → False := fun hmulti => hne (hqueues hmulti cmd hcmd haccepts)
      have hread : .write ∉ cmd.flags := by
        cases hruns : runsInMulti n with
        | true => exact (not_write_of_runsInMulti hcmd hruns).1
        | false => exact (not_write_of_runsInMulti (hlookup.trans hcmd) (by rw [hruns] at hne; simpa using hne.symm)).1
      rw [Robust.executeNamed_run hname hcmd hread haccepts hcl fun h => (hfree h).elim,
        Robust.executeNamed_run hname' (hlookup.trans hcmd) hread haccepts hcl fun h => (hfree h).elim]
      exact hsame (lockstep_runHandler_recased hname hname' cmd (ne_nil_of_accepts haccepts))
    · refine hsame (lockstep_executeNamed_recased hname hname' hcase fun cmd hcmd haccepts => ?_)
      by_contra hne
      exact hapart ⟨cmd, hcmd, haccepts, hne⟩

/-- **The letter case of a command name does not matter, exactly where it does not decide what a transaction queues**:
two requests that differ in it only leave the same databases, the same flags and the same transactions, and the same
replies but where these quote the name, if and only if the client is in no transaction, the arguments are not those of
the command, or `executeCommand` finds both names among those it does not queue, or neither. Both requests look the
same command up, and run in lockstep from there; they part at the one place where the raw name is compared. -/
theorem letter_case_iff {reserve : Reserve} {cl : Client} {program : CommandM S c (.array (name :: args))}
    {program' : CommandM S c (.array (name' :: args))} (hs : Visited reserve depth s)
    (hcl : s.clients.lookup c = some cl) (hname : name.asString = .ok n) (hname' : name'.asString = .ok n')
    (hcase : toUpper n = toUpper n') (h : executeCommand (callbacks depth) c (.array (name :: args)) = .ok program)
    (h' : executeCommand (callbacks depth) c (.array (name' :: args)) = .ok program') :
    SameOutcomes n n' (program.run s) (program'.run s) ↔
      (cl.hasFlag .multi = true → ∀ cmd, Command.lookup n = some cmd →
        cmd.accepts (asInt (args.length + 1)) = true → runsInMulti n = runsInMulti n') := by
  rw [executeCommand_of_name hname] at h
  rw [executeCommand_of_name hname'] at h'
  obtain rfl := Except.ok.inj h
  obtain rfl := Except.ok.inj h'
  exact sameOutcomes_iff hs.popsWait hcl hname hname' hcase

end Handlers

section Sample

open Sample

/-- A client is in a transaction. -/
private def inTransaction : List Turn := [.accept, sends 0 ["MULTI"]]

/-- The client of the sample is in a transaction. -/
private theorem ran_inTransaction : ∃ s cl, ran inTransaction = some s ∧ s.clients.lookup 0 = some cl ∧
    cl.hasFlag .multi = true := by
  have hran : (ran inTransaction).map (fun s => (s.clients.lookup 0).map (·.hasFlag .multi)) = some (some true) := by
    decide +kernel
  obtain ⟨s, hs, hsample⟩ := Option.map_eq_some_iff.mp hran
  obtain ⟨cl, hcl, hmulti⟩ := Option.map_eq_some_iff.mp hsample
  exact ⟨s, cl, hs, hcl, hmulti⟩

/-- `GET` and `get` are both queued. -/
theorem letter_case_get : ∃ s : Server Score, ran inTransaction = some s ∧
    ∃ (program : CommandM Score 0 (.array [.bulkString (str "GET"), .bulkString (str "k")]))
      (program' : CommandM Score 0 (.array [.bulkString (str "get"), .bulkString (str "k")])),
      executeCommand (callbacks 2) 0 _ = .ok program ∧ executeCommand (callbacks 2) 0 _ = .ok program' ∧
        SameOutcomes (str "GET") (str "get") (program.run s) (program'.run s) := by
  obtain ⟨s, cl, hs, hcl, -⟩ := ran_inTransaction
  have hname : (RespValue.bulkString (str "GET")).asString = .ok (str "GET") := rfl
  have hname' : (RespValue.bulkString (str "get")).asString = .ok (str "get") := rfl
  refine ⟨s, hs, _, _, executeCommand_of_name hname, executeCommand_of_name hname', ?_⟩
  exact (letter_case_iff (.callback (reachable_ran hs)) hcl hname hname' (by decide +kernel)
    (executeCommand_of_name hname) (executeCommand_of_name hname')).mpr fun _ _ _ _ => by decide +kernel

/-- Within a transaction `EXEC` runs what is queued, and `exec` is queued. -/
theorem exec_letter_case : ¬∀ (s : Server Score) (c : ClientId) (n n' : Bytes) (args : List RespValue)
    (program : CommandM Score c (.array (.bulkString n :: args)))
    (program' : CommandM Score c (.array (.bulkString n' :: args))), Visited (fun _ => none) 2 s →
    toUpper n = toUpper n' → executeCommand (callbacks 2) c _ = .ok program →
    executeCommand (callbacks 2) c _ = .ok program' → SameOutcomes n n' (program.run s) (program'.run s) := by
  intro hall
  obtain ⟨s, cl, hs, hcl, hmulti⟩ := ran_inTransaction
  have hname : (RespValue.bulkString (str "EXEC")).asString = .ok (str "EXEC") := rfl
  have hname' : (RespValue.bulkString (str "exec")).asString = .ok (str "exec") := rfl
  have hcmd : Command.lookup (str "EXEC") = some .exec := by decide +kernel
  exact not_sameOutcomes hname hname' (by decide +kernel) hcl hmulti hcmd (by decide) (by decide +kernel)
    (by decide +kernel) (hall s 0 _ _ [] _ _ (.callback (reachable_ran hs)) (by decide +kernel)
      (executeCommand_of_name hname) (executeCommand_of_name hname'))

end Sample

end Server

end RedisDb
