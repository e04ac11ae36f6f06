import RedisDb.Commands.CommandRegistry
import RedisDb.Commands.OneKey
import RedisDb.Server.OnDatabase

/-!
# List commands implement a list

What the commands of `list_commands.cpp` do to the list under their key, and what they reply: a push puts its values
in one after another, so that `LPUSH` leaves them in the opposite order, and a pop takes an element off at its end.

This is so of all of them but `RPUSH` (`lists_iff`), whose handler calls `pushGeneric` twice.
-/

namespace RedisDb

open RespSerializer

variable {S : Type}

/-! ### The commands -/

/-- The list commands, with what follows the key. -/
inductive ListCommand where
  | lpush (values : List Bytes)
  | rpush (values : List Bytes)
  | lpop
  | rpop
  | llen

namespace ListCommand

/-- The entry in the registry. -/
def command : ListCommand → Command
  | .lpush _ => .lpush
  | .rpush _ => .rpush
  | .lpop => .lpop
  | .rpop => .rpop
  | .llen => .llen

/-- The arguments behind the key. -/
def words : ListCommand → List Bytes
  | .lpush values | .rpush values => values
  | .lpop | .rpop | .llen => []

/-- The list that a command is to leave. -/
def after (xs : List Bytes) : ListCommand → List Bytes
  | .lpush values => values.reverse ++ xs
  | .rpush values => xs ++ values
  | .lpop => xs.tail
  | .rpop => xs.dropLast
  | .llen => xs

/-- What a command is to reply. -/
def reply (xs : List Bytes) : ListCommand → Bytes
  | .lpush values => integer (values.reverse ++ xs).length
  | .rpush values => integer (xs ++ values).length
  | .lpop => (xs.head?.map bulkString).getD nullBulkString
  | .rpop => (xs.getLast?.map bulkString).getD nullBulkString
  | .llen => integer xs.length

/-- The commands that put elements in. -/
def Pushes : ListCommand → Prop
  | .lpush _ | .rpush _ => True
  | _ => False

/-- The commands that take an element off. -/
def Pops : ListCommand → Prop
  | .lpop | .rpop => True
  | _ => False

/-- The command is `RPUSH`. -/
def IsRpush : ListCommand → Prop
  | .rpush _ => True
  | _ => False

end ListCommand

/-- A key has a list, or nothing, which is an empty one. -/
def Database.HasList (db : Database S) (now : ℤ) (key : Bytes) (xs : List Bytes) : Prop :=
  (db.valueAt now key = none ∧ xs = []) ∨ ∃ list, db.valueAt now key = some (.list list) ∧ list.Holds xs

/-- What is asked of a database: the key has the list that the command is to leave, a list from which everything has
been taken is gone, and the other keys are as they were. -/
structure ListCommand.Leaves (cmd : ListCommand) (xs : List Bytes) (now : ℤ) (key : Bytes) (db db' : Database S) :
    Prop where
  list : db'.HasList now key (cmd.after xs)
  gone : cmd.Pops → xs ≠ [] → (key ∈ db'.data ↔ cmd.after xs ≠ [])
  changes : db.ChangesTo now key (db'.valueAt now key) db'

/-- **What is asked of a command** of client `c`, on database `i`: it leaves the list it is to leave, and sends the
client one reply. -/
structure ListCommand.Implements (cmd : ListCommand) (xs : List Bytes) (key : Bytes) (c : ClientId) (i : ℕ)
    (s t : Server S) : Prop where
  leaves : ∀ db, s.databases[i]? = some db →
    ∃ db', t.databases = s.databases.set i db' ∧ cmd.Leaves xs (s.env.clock 0) key db db'
  reply : ∀ cl, s.clients.lookup c = some cl →
    ∃ cl', t.clients.lookup c = some cl' ∧ cl'.outputBuffer = cl.outputBuffer ++ cmd.reply xs

/-! ### On the database -/

section Database

open DbState

variable {now : ℤ} {key : Bytes} {s : DbState S} {xs : List Bytes}

/-- A key with a list, which has come to be there or was there before, has it by any reading of the clock, unless it
has expired. -/
theorem Database.hasList_of_data {db : Database S} {obj : RedisObject S} {list : LinkedList}
    (hobj : db.data.lookup key = some obj) (hvalue : obj.value = .list list) (hlist : list.Holds xs) (now : ℤ) :
    ∃ ys, db.HasList now key ys := by
  by_cases hexpired : db.Expired now key
  · exact ⟨[], .inl ⟨Database.valueAt_of_expired hexpired, rfl⟩⟩
  · exact ⟨xs, .inr ⟨list, hvalue ▸ Database.valueAt_of_live hobj hexpired, hlist⟩⟩

variable [Platform]

/-- **The loop of a push**. By induction on the values. -/
theorem ends_pushLoop (left : Bool) (obj : RedisObject S) (args : List RespValue) : ∀ {values : List Bytes}
    {list : LinkedList} {xs : List Bytes} {t : DbState S}, args.mapM RespValue.asString = .ok values → list.Holds xs →
    Points now key { obj with value := .list list } s t →
    (pushLoop key left obj list args).Ends t fun list' u =>
      list'.Holds (if left then values.reverse ++ xs else xs ++ values) ∧
        Points now key { obj with value := .list list' } s u := by
  induction args with
  | nil =>
    intro values list xs t hargs hlist hpoints
    obtain rfl := Except.ok.inj hargs
    refine Program.ends_pure ⟨?_, hpoints⟩
    simpa using hlist
  | cons arg args ih =>
    intro values list xs t hargs hlist hpoints
    obtain ⟨value, rest, hvalue, hrest, rfl⟩ := RespValue.mapM_cons_eq_ok hargs
    refine Program.ends_bind_of_run (congrArg (fun r => some (r, t)) hvalue) ?_
    refine Program.ends_bind_of_run (t := t.putObject key { obj with
      value := .list (if left then list.pushFront value else list.pushBack value) }) rfl ?_
    -- one more element, at the end that the command pushes to
    have hpushed : (if left then list.pushFront value else list.pushBack value).Holds
        (if left then value :: xs else xs ++ [value]) := by
      cases left with
      | true => exact hlist.pushFront value
      | false => exact hlist.pushBack value
    refine (ih hrest hpushed (hpoints.putObject _)).mono fun list' u ⟨hlist', hu⟩ => ⟨?_, hu⟩
    cases left with
    | true => simpa using hlist'
    | false => simpa using hlist'

/-- **A push**, on a key that has a list or nothing. If a client is to be woken, then on the key. The list is the one
at the key, or a new one; the loop pushes the values in the order in which they are given. -/
theorem ends_pushElements (left : Bool) {args : List RespValue} {values : List Bytes}
    (hlist : s.db.HasList (s.clock 0) key xs) (hkey : ArgString args 1 key)
    (hwords : (args.drop 2).mapM RespValue.asString = .ok values) :
    (pushElements args left).Ends s fun r t =>
      r.1 = integer (if left then values.reverse ++ xs else xs ++ values).length ∧ (∀ k ∈ r.2, k = key) ∧
      ∃ obj list, obj.value = .list list ∧ list.Holds (if left then values.reverse ++ xs else xs ++ values) ∧
        Points (s.clock 0) key obj s t := by
  refine Program.ends_bind_of_run (argString_run hkey s) ((DbM.ends_objectForAdd key _ s).bind fun obj t h => ?_)
  -- the object is the one the key shows, or a new one with an empty list
  obtain ⟨hpoints, hcases⟩ := h
  obtain ⟨list, hvalue, hholds⟩ : ∃ list, obj.value = .list list ∧ list.Holds xs := by
    rcases hlist with ⟨hnone, rfl⟩ | ⟨list, hshown, hholds⟩
    · rcases hcases with ⟨hsome, -⟩ | ⟨-, hnew⟩
      · cases hnone.symm.trans hsome
      · exact ⟨.new, hnew, LinkedList.holds_new⟩
    · rcases hcases with ⟨hsome, -⟩ | ⟨hnone, -⟩
      · exact ⟨list, Option.some.inj (hsome.symm.trans hshown), hholds⟩
      · cases hnone.symm.trans hshown
  have hstart : Points (s.clock 0) key { obj with value := .list list } s t := by
    rw [← hvalue]
    exact hpoints
  simp only [hvalue]
  refine (ends_pushLoop left obj _ hwords hholds hstart).bind fun list' u ⟨hlist', hu⟩ => Program.ends_pure ⟨?_, ?_, ?_⟩
  · rw [LinkedList.size, hlist'.length]
  · intro k hk
    split at hk
    · exact (Option.mem_some_iff.mp hk).symm
    · cases hk
  · exact ⟨_, list', rfl, hlist', hu⟩

/-- **A pop**, on a key that has a list or nothing. Where the last element goes, the key goes with it. -/
theorem ends_popGeneric (left : Bool) (cmd : ListCommand) {args : List RespValue}
    (hafter : cmd.after xs = if left then xs.tail else xs.dropLast)
    (hreply : cmd.reply xs = ((if left then xs.head? else xs.getLast?).map bulkString).getD nullBulkString)
    (hlist : s.db.HasList (s.clock 0) key xs) (hkey : ArgString args 1 key) :
    (popGeneric args left).Ends s fun r t => r = cmd.reply xs ∧ cmd.Leaves xs (s.clock 0) key s.db t.db := by
  refine Program.ends_bind_of_run (argString_run hkey s) (DbM.ends_getObject_bind (fun t hnone hgone => ?_)
    fun obj t hshown hpoints hsame => ?_)
  · -- the key shows nothing: the reply is null
    rcases hlist with ⟨-, rfl⟩ | ⟨list, hsome, -⟩
    · refine Program.ends_pure ⟨?_, .inl ⟨hgone.value, ?_⟩, fun _ hne => absurd rfl hne, hgone.value ▸ hgone⟩
      · rw [hreply]
        cases left <;> rfl
      · rw [hafter]
        cases left <;> rfl
    · cases hnone.symm.trans hsome
  · rcases hlist with ⟨hnone, -⟩ | ⟨list, hsome, hholds⟩
    · cases hnone.symm.trans hshown
    obtain hvalue : obj.value = .list list := Option.some.inj (hshown.symm.trans hsome)
    have hchanges : s.db.ChangesTo (s.clock 0) key (t.db.valueAt (s.clock 0) key) t.db := by
      rw [hpoints.changesTo.value]
      exact hpoints.changesTo
    obtain ⟨hfirst, hrest⟩ := hholds.popped left
    simp only [hvalue]
    rcases hpop : list.pop left with ⟨popped, list'⟩
    rw [hpop] at hfirst hrest
    rw [← hafter] at hrest
    subst hfirst
    rw [hreply]
    cases hend : if left then xs.head? else xs.getLast? with
    | none =>
      -- there is nothing to take off
      obtain rfl : xs = [] := by
        cases left with
        | true => exact List.head?_eq_none_iff.mp hend
        | false => exact List.getLast?_eq_none_iff.mp hend
      have hnothing : cmd.after ([] : List Bytes) = [] := by
        rw [hafter]
        cases left <;> rfl
      refine Program.ends_pure ⟨rfl, .inr ⟨list, ?_, ?_⟩, fun _ hne => absurd rfl hne, hchanges⟩
      · rw [hpoints.changesTo.value, hvalue]
      · rw [hnothing]
        exact hholds
    | some v =>
      -- an element is taken off, and the list is put back
      have hput := hpoints.putObject { obj with value := .list list' }
      refine Program.ends_bind_of_run (t := t.putObject key { obj with value := .list list' }) rfl ?_
      split
      · next hempty =>
        -- it was the last one, so the key is deleted
        have hnil := hrest.isEmpty_iff.mp hempty
        have hgone := hput.del
        refine Program.ends_bind_of_run rfl (Program.ends_pure ⟨rfl, .inl ⟨hgone.value, hnil⟩, fun _ _ => ?_, ?_⟩)
        · exact iff_of_false (fun hkey => nomatch hgone.present.mp hkey) (absurd hnil)
        · exact hgone.value ▸ hgone
      · next hsome =>
        have hleft : cmd.after xs ≠ [] := fun hnil => hsome (hrest.isEmpty_iff.mpr hnil)
        have hnow := hput.changesTo
        refine Program.ends_pure ⟨rfl, .inr ⟨list', hnow.value, hrest⟩, fun _ _ => ?_, hnow.value ▸ hnow⟩
        exact iff_of_true (hnow.present.mpr rfl) hleft

/-- **`LLEN`**, on a key that has a list or nothing. -/
theorem ends_llenCommand {args : List RespValue} (hlist : s.db.HasList (s.clock 0) key xs)
    (hkey : ArgString args 1 key) : (llenCommand args : DbM S Bytes).Ends s fun r t =>
      r = ListCommand.llen.reply xs ∧ ListCommand.llen.Leaves xs (s.clock 0) key s.db t.db := by
  refine Program.ends_bind_of_run (argString_run hkey s) (DbM.ends_getObject_bind (fun t hnone hgone => ?_)
    fun obj t hshown hpoints hsame => ?_)
  · rcases hlist with ⟨-, rfl⟩ | ⟨list, hsome, -⟩
    · exact Program.ends_pure ⟨rfl, .inl ⟨hgone.value, rfl⟩, nofun, hgone.value ▸ hgone⟩
    · cases hnone.symm.trans hsome
  · rcases hlist with ⟨hnone, -⟩ | ⟨list, hsome, hholds⟩
    · cases hnone.symm.trans hshown
    obtain hvalue : obj.value = .list list := Option.some.inj (hshown.symm.trans hsome)
    have hnow := hpoints.changesTo
    simp only [hvalue]
    refine Program.ends_pure ⟨?_, .inr ⟨list, ?_, hholds⟩, nofun, hnow.value ▸ hnow⟩
    · rw [LinkedList.size, hholds.length]
      rfl
    · rw [hnow.value, hvalue]

end Database

/-! ### On the server -/

section Server

open EffectM DbState

variable [Platform] [Double S] [Inhabited S] [LT S] [DecidableLT S] [BEq S] {depth : ℕ} {c : ClientId} {cl : Client}
  {db : Database S} {key : Bytes} {xs : List Bytes} {args : List RespValue} {s : Server S}

omit [Double S] [Inhabited S] [LT S] [DecidableLT S] [BEq S] in
/-- **A handler that works on the database and replies.** -/
theorem ends_databaseCommand {f : DatabaseCommand S} {Q : Bytes → DbState S → Prop} (hwatch : s.WatchersThere)
    (hcl : s.clients.lookup c = some cl) (hdb : s.databases[s.databaseIndex cl.selectedDb]? = some db)
    (hf : (f args).Ends (s.dbState db) Q) :
    (databaseCommand f c args).Ends s fun _ t => ∃ data ds,
      s.Replied c data (s.databaseIndex cl.selectedDb) ds.db t ∧ Q data ds := by
  refine (ends_onDatabase hwatch hcl hdb hf).bind fun data t ⟨ds, _, hq, hafter⟩ => ?_
  exact (ends_addReply_after data hcl hafter).mono fun _ u hreplied => ⟨data, ds, hreplied, hq⟩

/-- Nobody is woken on a key on which nobody is blocked. -/
theorem wake_run (hfree : s.blockedClients.valuesAt key = []) :
    ((callbacks (depth + 1)).wake c key).run s = some (.ok (), s) := by
  have hnone : s.firstWaiter key = none := by rw [Server.firstWaiter, hfree]; rfl
  show (handleClientsBlockedOnKey (callbacks depth) c key).run s = _
  simp only [handleClientsBlockedOnKey, hnone]

/-- **A call of `pushGeneric`**: it pushes on the database, and sends one reply. -/
theorem ends_pushGeneric (left : Bool) {values : List Bytes} (hwatch : s.WatchersThere)
    (hcl : s.clients.lookup c = some cl) (hdb : s.databases[s.databaseIndex cl.selectedDb]? = some db)
    (hlist : db.HasList (s.env.clock 0) key xs) (hfree : s.blockedClients.valuesAt key = [])
    (hkey : ArgString args 1 key) (hwords : (args.drop 2).mapM RespValue.asString = .ok values) :
    (pushGeneric ((callbacks (depth + 1)).wake c) args left).Ends s fun _ t => ∃ db' obj list,
      s.Replied c (integer (if left then values.reverse ++ xs else xs ++ values).length)
        (s.databaseIndex cl.selectedDb) db' t ∧
      obj.value = .list list ∧ list.Holds (if left then values.reverse ++ xs else xs ++ values) ∧
      db'.data.lookup key = some obj ∧ db.ChangesTo (s.env.clock 0) key (some obj.value) db' := by
  let noted := s.note (s.pushEvent c args)
  refine Program.ends_bind_of_run (t := noted) rfl ?_
  have hpush := ends_onDatabase (s := noted) (k := none) hwatch hcl hdb
    (ends_pushElements left (s := noted.dbState db) hlist hkey hwords)
  refine hpush.bind fun r t ⟨ds, hrun, ⟨hr, hwoken, obj, list, hobj, hholds, hpoints⟩, hafter⟩ => ?_
  -- the reply is the new length, and the key that is handed on is the one that was pushed to
  obtain ⟨reply, woken⟩ := r
  obtain rfl : reply = _ := hr
  refine (ends_addReply_after (s := noted) _ hcl hafter).bind fun _ u hreplied => ?_
  have hdone : ∃ db' obj list,
      s.Replied c (integer (if left then values.reverse ++ xs else xs ++ values).length)
        (s.databaseIndex cl.selectedDb) db' u ∧
      obj.value = .list list ∧ list.Holds (if left then values.reverse ++ xs else xs ++ values) ∧
      db'.data.lookup key = some obj ∧ db.ChangesTo (s.env.clock 0) key (some obj.value) db' :=
    ⟨ds.db, obj, list, ⟨hreplied.databases, hreplied.client, hreplied.blockedClients, hreplied.watchersThere⟩, hobj,
      hholds, hpoints.here, hpoints.changesTo⟩
  cases woken with
  | none => exact Program.ends_pure hdone
  | some k =>
    -- nobody waits for the key, so nobody is woken
    obtain rfl := hwoken k rfl
    exact ⟨(), u, wake_run (hreplied.blockedClients ▸ hfree), hdone⟩

/-- `RPUSH` sends two replies: the key has a list after the first push, and after that it has one or has expired. -/
theorem ends_rpushCommand (depth : ℕ) {values : List Bytes} (hwatch : s.WatchersThere) (hcl : s.clients.lookup c = some cl)
    (hdb : s.databases[s.databaseIndex cl.selectedDb]? = some db) (hlist : db.HasList (s.env.clock 0) key xs)
    (hfree : s.blockedClients.valuesAt key = []) (hkey : ArgString args 1 key)
    (hwords : (args.drop 2).mapM RespValue.asString = .ok values) :
    (Command.rpush.handler (callbacks (depth + 1)) c args).Ends s fun _ t => ∃ cl' length,
      t.clients.lookup c = some cl' ∧
      cl'.outputBuffer = cl.outputBuffer ++ integer (xs ++ values).length ++ integer length := by
  refine (ends_pushGeneric false hwatch hcl hdb hlist hfree hkey hwords).bind fun _ t h => ?_
  obtain ⟨db', obj, list, hreplied, hobj, hholds, hthere, -⟩ := h
  obtain ⟨cl', hcl', hselected, houtput⟩ := hreplied.client cl hcl
  obtain ⟨ys, hys⟩ := Database.hasList_of_data hthere hobj hholds (t.env.clock 0)
  -- the second push finds the client and the database that the first one has left
  have hdb' : t.databases[t.databaseIndex cl'.selectedDb]? = some db' := by
    have hindex : t.databaseIndex cl'.selectedDb = s.databaseIndex cl.selectedDb := by
      rw [hselected, Server.databaseIndex, Server.databaseIndex, hreplied.databases, List.length_set]
    rw [hindex, hreplied.databases]
    exact List.getElem?_set_self (List.getElem?_eq_some_iff.mp hdb).1
  refine (ends_pushGeneric false hreplied.watchersThere hcl' hdb' hys (hreplied.blockedClients ▸ hfree) hkey
    hwords).mono fun _ u hagain => ?_
  obtain ⟨_, _, _, hreplied', -⟩ := hagain
  obtain ⟨cl'', hcl'', -, houtput'⟩ := hreplied'.client cl' hcl'
  exact ⟨cl'', _, hcl'', houtput'.trans (congrArg (· ++ _) houtput)⟩

omit [Platform] [Double S] [Inhabited S] [LT S] [DecidableLT S] [BEq S] in
/-- What a command does on the database and what it replies are all that is asked. -/
theorem ListCommand.Implements.of_replied {cmd : ListCommand} {db' : Database S} {i : ℕ} {t : Server S}
    (hdb : s.databases[i]? = some db) (hreplied : s.Replied c (cmd.reply xs) i db' t)
    (hleaves : cmd.Leaves xs (s.env.clock 0) key db db') : cmd.Implements xs key c i s t where
  leaves d hd := by
    obtain rfl := Option.some.inj (hdb.symm.trans hd)
    exact ⟨db', hreplied.databases, hleaves⟩
  reply cl hcl := by
    obtain ⟨cl', hcl', -, houtput⟩ := hreplied.client cl hcl
    exact ⟨cl', hcl', houtput⟩

/-- **The list commands implement a list**, all of them but `RPUSH`, on a key that has a list or nothing and on which
nobody is blocked. Every command but `RPUSH` is one handler on one database, and is computed on a list with the
elements `xs`; `RPUSH` is computed too, and has written two replies. -/
theorem lists_iff (depth : ℕ) (cmd : ListCommand) (hwatch : s.WatchersThere) (hcl : s.clients.lookup c = some cl)
    (hdb : s.databases[s.databaseIndex cl.selectedDb]? = some db) (hlist : db.HasList (s.env.clock 0) key xs)
    (hfree : s.blockedClients.valuesAt key = []) (hkey : ArgString args 1 key)
    (hwords : (args.drop 2).mapM RespValue.asString = .ok cmd.words) :
    ((cmd.command.handler (callbacks (depth + 1)) c args).Ends s fun _ t =>
      cmd.Implements xs key c (s.databaseIndex cl.selectedDb) s t) ↔ ¬cmd.IsRpush := by
  constructor
  · rintro ⟨_, t, hrun, himplements⟩ hrpush
    cases cmd with
    | rpush values =>
      -- one reply is asked for, and there are two
      obtain ⟨_, t', hrun', cl'', length, hcl'', htwice⟩ :=
        ends_rpushCommand depth hwatch hcl hdb hlist hfree hkey hwords
      obtain rfl : t = t' := (Prod.mk.inj (Option.some.inj (hrun.symm.trans hrun'))).2
      obtain ⟨cl', hcl', honce⟩ := himplements.reply cl hcl
      obtain rfl := Option.some.inj (hcl'.symm.trans hcl'')
      have hnil : integer length = [] :=
        List.append_cancel_left (htwice.symm.trans (honce.trans (List.append_nil _).symm))
      cases hnil
    | lpush | lpop | rpop | llen => cases hrpush
  · -- every other command does what is asked of it
    intro hno
    cases cmd with
    | lpush values =>
      refine (ends_pushGeneric true hwatch hcl hdb hlist hfree hkey hwords).mono fun _ t h => ?_
      obtain ⟨db', obj, list, hreplied, hobj, hholds, -, hchanges⟩ := h
      refine .of_replied hdb hreplied ⟨.inr ⟨list, hobj ▸ hchanges.value, hholds⟩, nofun, ?_⟩
      exact hchanges.value ▸ hchanges
    | rpush values => exact absurd trivial hno
    | lpop =>
      refine (ends_databaseCommand hwatch hcl hdb (ends_popGeneric true .lpop rfl rfl hlist hkey)).mono fun _ t h => ?_
      obtain ⟨data, ds, hreplied, rfl, hleaves⟩ := h
      exact .of_replied hdb hreplied hleaves
    | rpop =>
      refine (ends_databaseCommand hwatch hcl hdb (ends_popGeneric false .rpop rfl rfl hlist hkey)).mono fun _ t h => ?_
      obtain ⟨data, ds, hreplied, rfl, hleaves⟩ := h
      exact .of_replied hdb hreplied hleaves
    | llen =>
      refine (ends_databaseCommand hwatch hcl hdb (ends_llenCommand hlist hkey)).mono fun _ t h => ?_
      obtain ⟨data, ds, hreplied, rfl, hleaves⟩ := h
      exact .of_replied hdb hreplied hleaves

end Server

section Sample

open Sample

/-- A server to which a client has connected. -/
def connected : Server Score := { databases := [{}], clients := AList.insert 0 {} ∅ }

/-- Two values for `k`. -/
def pushes (name : String) : List RespValue := [name, "k", "a", "b"].map fun word => .bulkString (str word)

theorem watchersThere_connected : connected.WatchersThere := by
  intro db hdb key clients hwatch
  rw [List.mem_singleton.mp hdb] at hwatch
  cases hwatch

/-- `LPUSH` leaves the values in the opposite order. -/
theorem lists_iff_lpush : ((ListCommand.lpush [str "a", str "b"]).command.handler (callbacks 1) 0 (pushes "LPUSH")).Ends
    connected fun _ t => (ListCommand.lpush [str "a", str "b"]).Implements [] (str "k") 0 (connected.databaseIndex 0)
      connected t := by
  have hkey : ArgString (pushes "LPUSH") 1 (str "k") := ⟨_, rfl, rfl⟩
  have hlist : Database.HasList ({} : Database Score) 0 (str "k") [] := .inl ⟨rfl, rfl⟩
  have hcl : connected.clients.lookup 0 = some {} := rfl
  have hdb : connected.databases[connected.databaseIndex 0]? = some {} := rfl
  have hwords : ((pushes "LPUSH").drop 2).mapM RespValue.asString = .ok [str "a", str "b"] := rfl
  have hfree : connected.blockedClients.valuesAt (str "k") = [] := rfl
  have hiff := lists_iff 0 (.lpush [str "a", str "b"]) watchersThere_connected hcl hdb hlist hfree hkey hwords
  exact hiff.mpr not_false

/-- `RPUSH` pushes the values twice, and replies twice. -/
theorem rpush_twice : ¬∀ (cmd : ListCommand) (args : List RespValue) (key : Bytes) (xs : List Bytes) (c : ClientId)
    (cl : Client) (db : Database Score) (s : Server Score), s.WatchersThere → s.clients.lookup c = some cl →
    s.databases[s.databaseIndex cl.selectedDb]? = some db → db.HasList (s.env.clock 0) key xs →
    s.blockedClients.valuesAt key = [] → ArgString args 1 key → (args.drop 2).mapM RespValue.asString = .ok cmd.words →
    (cmd.Pushes → cmd.words ≠ []) → (cmd.command.handler (callbacks 1) c args).Ends s fun _ t =>
      cmd.Implements xs key c (s.databaseIndex cl.selectedDb) s t := by
  intro hall
  obtain ⟨_, t, hrun, himplements⟩ := hall (.rpush [str "a", str "b"]) (pushes "RPUSH") (str "k") [] 0 {} {} connected
    watchersThere_connected rfl rfl (.inl ⟨rfl, rfl⟩) rfl ⟨_, rfl, rfl⟩ rfl nofun
  have htwice : (((ListCommand.rpush []).command.handler (callbacks 1) 0 (pushes "RPUSH")).run connected).map
      (fun r => (r.2.clients.lookup 0).map (·.outputBuffer)) = some (some (integer 2 ++ integer 4)) := by decide +kernel
  obtain ⟨cl', hcl', honce⟩ := himplements.reply {} rfl
  rw [show ((ListCommand.rpush []).command.handler (callbacks 1) 0 (pushes "RPUSH")).run connected = _ from hrun,
    Option.map_some, hcl', Option.map_some, honce] at htwice
  revert htwice
  decide

end Sample

end RedisDb
