import RedisDb.Commands.HandlerRules
import RedisDb.Commands.Refusals
import RedisDb.Server.Eviction
import RedisDb.Server.OnDatabase
import RedisDb.Server.WriteCommands

/-!
# Errors leave the data as they are

A client that is sent an error in reply to a write command may take it that the command has done nothing
(`errors_leave_data`): from where the command is carried out, keys have expired at most. That is where the server
stands when the request comes, or, if more memory is in use than may be, where eviction has come to an end; what has
been evicted by then stays so, though the command is refused.

Commands that are carried out in part are left aside (`Server.InPart`), which is a condition on the state before. For
some of them it is the words of the command that are no good from some place on, and for a push that wakes a client
the other client's command is carried out with it.

The proof looks at a run of the command at the place where its handler returns, or throws. By then nothing has
happened to the data, or the command has replied without an error, and all of its arguments are strings, so that it
can be logged (`Server.Handled`). For the commands on a database this is `DbState.AllOrNothing`, of the module that
shows it for each of them (`Commands.Refusals`). What comes after the handler then either catches an exception with an
error, and nothing has happened, or logs the command, and for that it throws nothing.

An error is a reply that begins with a minus sign, and `Spared` says of all that has been put into the output of the
client that none of it does. Replies to others, and what replicas are sent, do not count.
-/

namespace RedisDb

open RespSerializer EffectM

variable {S : Type}

namespace Server

/-! ### What happens to the data, and what the client is sent -/

/-- Keys have expired, by a reading of the clock in between, and nothing else has happened to the data. -/
structure OnlyExpires (s t : Server S) : Prop where
  length : t.databases.length = s.databases.length
  gone : ∃ n, (t.env.clock = fun k => s.env.clock (n + k)) ∧ ∀ (i : ℕ) (db db' : Database S), s.databases[i]? = some db →
    t.databases[i]? = some db' → db.Remains db' ∧ ∀ key ∈ db.data, key ∉ db'.data →
      ∃ deadline, db.expires.lookup key = some deadline ∧ ∃ j < n, deadline ≤ s.env.clock j

/-- The client has been sent no error. -/
def Spared (c : ClientId) (s t : Server S) : Prop :=
  ∃ es, t.trace = s.trace ++ es ∧ ∀ data, .reply c data ∈ es → ¬IsError data

section Relations

variable {s t u : Server S} {c id : ClientId}

/-- The data are the same, and the clock may have been read. -/
theorem OnlyExpires.of_eq (n : ℕ) (hdatabases : t.databases = s.databases)
    (hclock : t.env.clock = fun k => s.env.clock (n + k)) : s.OnlyExpires t where
  length := by rw [hdatabases]
  gone := by
    refine ⟨n, hclock, fun i db db' hdb hdb' => ?_⟩
    rw [hdatabases] at hdb'
    obtain rfl := Option.some.inj (hdb.symm.trans hdb')
    exact ⟨.refl db, fun key hkey hgone => absurd hkey hgone⟩

/-- The data are the same, and the clock has not been read. -/
theorem OnlyExpires.of_same (hdatabases : t.databases = s.databases) (henv : t.env = s.env) : s.OnlyExpires t :=
  .of_eq 0 hdatabases (by rw [henv]; exact funext fun k => by rw [Nat.zero_add])

/-- Where nothing happens. -/
theorem OnlyExpires.refl (s : Server S) : s.OnlyExpires s := .of_same rfl rfl

/-- One step after another. -/
theorem OnlyExpires.trans (h : s.OnlyExpires t) (h' : t.OnlyExpires u) : s.OnlyExpires u where
  length := h'.length.trans h.length
  gone := by
    obtain ⟨n, hclock, hgone⟩ := h.gone
    obtain ⟨m, hclock', hgone'⟩ := h'.gone
    refine ⟨n + m, ?_, fun i db db' hdb hdb' => ?_⟩
    · rw [hclock', hclock]
      exact funext fun k => congrArg s.env.clock (by omega)
    · have hi : i < t.databases.length := h.length ▸ (List.getElem?_eq_some_iff.mp hdb).1
      obtain ⟨mid, hmid⟩ : ∃ mid, t.databases[i]? = some mid := ⟨_, List.getElem?_eq_getElem hi⟩
      obtain ⟨hremains, hfirst⟩ := hgone i db mid hdb hmid
      obtain ⟨hremains', hlast⟩ := hgone' i mid db' hmid hdb'
      refine ⟨hremains.trans hremains', fun key hkey hout => ?_⟩
      by_cases hin : key ∈ mid.data
      · -- the key expires behind `t`, where the clock stands `n` readings later
        obtain ⟨deadline, hd, j, hj, hpast⟩ := hlast key hin hout
        refine ⟨deadline, hremains.expires key deadline hd, n + j, by omega, ?_⟩
        rwa [hclock] at hpast
      · obtain ⟨deadline, hd, j, hj, hpast⟩ := hfirst key hkey hin
        exact ⟨deadline, hd, j, by omega, hpast⟩

/-- What happens to one database happens to no other. -/
theorem OnlyExpires.of_database {i : ℕ} {db : Database S} {ds : DbState S} (hdb : s.databases[i]? = some db)
    (hdatabases : t.databases = s.databases.set i ds.db) (henv : t.env = ds.toEnv)
    (h : (s.dbState db).OnlyExpires ds) : s.OnlyExpires t where
  length := by rw [hdatabases, List.length_set]
  gone := by
    obtain ⟨n, hclock, hgone⟩ := h.gone
    refine ⟨n, henv ▸ hclock, fun j old new hold hnew => ?_⟩
    obtain ⟨hi, -⟩ := List.getElem?_eq_some_iff.mp hdb
    rw [hdatabases] at hnew
    -- the one database has lost expired keys, and the others are as before
    by_cases hij : i = j
    · subst hij
      obtain rfl := Option.some.inj (hdb.symm.trans hold)
      rw [List.getElem?_set_self hi] at hnew
      obtain rfl := Option.some.inj hnew
      exact ⟨h.remains, fun key hkey hout => (hgone key hkey hout).resolve_left id⟩
    · rw [List.getElem?_set_ne hij, hold] at hnew
      obtain rfl := Option.some.inj hnew
      exact ⟨.refl _, fun key hkey hout => absurd hkey hout⟩

/-- Where nothing is noted nothing is sent. -/
theorem Spared.of_trace (h : t.trace = s.trace) : Spared c s t := ⟨[], by rw [h, List.append_nil], by simp⟩

/-- Where nothing happens. -/
theorem Spared.refl (s : Server S) : Spared c s s := .of_trace rfl

/-- One step after another. -/
theorem Spared.trans (h : Spared c s t) (h' : Spared c t u) : Spared c s u := by
  obtain ⟨es, hes, hno⟩ := h
  obtain ⟨es', hes', hno'⟩ := h'
  refine ⟨es ++ es', by rw [hes', hes, List.append_assoc], fun data hdata => ?_⟩
  exact (List.mem_append.mp hdata).elim (hno data) (hno' data)

/-- An event that is no error to the client. -/
theorem Spared.note {e : Event} (he : ∀ data, e = .reply c data → ¬IsError data) : Spared c s (s.note e) :=
  ⟨[e], rfl, fun data hdata => he data (List.mem_singleton.mp hdata).symm⟩

/-- A reply that is no error, or goes to somebody else. -/
theorem Spared.addReply {data : Bytes} (hdata : id = c → ¬IsError data) (h : s.addReply id data = some t) :
    Spared c s t := by
  obtain ⟨u, hu, rfl⟩ := Option.map_eq_some_iff.mp h
  obtain ⟨cl, -, rfl⟩ := Option.map_eq_some_iff.mp hu
  refine trans (of_trace rfl) (note fun text heq => ?_)
  obtain ⟨hid, rfl⟩ := Event.reply.inj heq
  exact hdata hid

end Relations

/-! ### Handlers -/

/-- The database that a client has selected. -/
def Selects (c : ClientId) (db : Database S) (s : Server S) : Prop :=
  ∃ cl, s.clients.lookup c = some cl ∧ s.databases[s.databaseIndex cl.selectedDb]? = some db

/-- **Where the handler of a write command ends**: nothing has happened to the data; or it has returned, it has sent no
error, and all arguments are strings. -/
def Handled (c : ClientId) (args : List RespValue) (s : Server S) (r : Except Exn Unit) (t : Server S) : Prop :=
  s.OnlyExpires t ∨ r = .ok () ∧ Spared c s t ∧ ∀ a ∈ args.drop 1, a.IsString

/-- What is done before is forgotten, where it is neither to the data nor an error. -/
theorem Handled.of_spared {c : ClientId} {args : List RespValue} {r : Except Exn Unit} {s t u : Server S}
    (hdatabases : t.databases = s.databases)
    (henv : t.env = s.env) (hspared : Spared c s t) (h : Handled c args t r u) : Handled c args s r u :=
  h.imp (OnlyExpires.of_same hdatabases henv).trans fun hreturned =>
    ⟨hreturned.1, hspared.trans hreturned.2.1, hreturned.2.2⟩

end Server

/-! ### The handlers on a database -/

section Handlers

open Server

variable [Platform] {s s₀ : Server S} {c : ClientId} {args : List RespValue} {k : Option RespValue} {ε α : Type}

/-- A reply is no data. -/
theorem onlyExpires_addReply {id : ClientId} (data : Bytes) :
    (addReply data : EffectM S k (some id) ε Unit).Keeps s₀.OnlyExpires := by
  refine fun s hs => (post_call s _).mpr fun t ht => ?_
  obtain ⟨u, hu, rfl⟩ := Option.map_eq_some_iff.mp ht
  obtain ⟨cl, -, rfl⟩ := Option.map_eq_some_iff.mp hu
  exact hs.trans (.of_same rfl rfl)

/-- A change beside the data that keeps an invariant. -/
theorem keeps_modify_of {I : Server S → Prop} {o : Option ClientId} {f : Server S → Server S}
    {h : ∀ s : Server S, s.Aside (f s)} (hf : ∀ s, I s → I (f s)) : (modify f h : EffectM S k o ε Unit).Keeps I :=
  Robust.keeps_call fun s _ ht hs => Option.some.inj ht ▸ hf s hs

/-- What such a change does. -/
theorem post_modify {o : Option ClientId} {f : Server S → Server S} {h : ∀ s : Server S, s.Aside (f s)}
    (s : Server S) : (modify f h : EffectM S k o ε Unit).Post s fun r t => r = .ok () ∧ t = f s :=
  (post_call s _).mpr fun _ ht => ⟨rfl, (Option.some.inj ht).symm⟩

/-- The command is counted. -/
theorem onlyExpires_count : (incrementCommandsProcessed : EffectM S k (some c) ε Unit).Keeps s₀.OnlyExpires :=
  keeps_modify_of fun _ hs => hs.trans (.of_same rfl rfl)

/-- **What is done with the result of a command on the database.** -/
theorem handled_onDatabase {p : DbM S α} {good : α → DbState S → Prop} {f : α → ServerM S c Unit}
    (hp : ∀ db, s.Selects c db → p.Post (s.dbState db) (DbState.AllOrNothing good (s.dbState db)))
    (hnothing : ∀ a, (f a).Keeps s.OnlyExpires)
    (hgood : ∀ a ds t, good a ds → Spared c s t → (f a).Post t (Handled c args s)) :
    (onDatabase p >>= f).Post s (Handled c args s) := by
  rw [Program.post_bind]
  refine (post_onDatabase p s).mono ?_
  rintro r t ⟨cl, db, ds, clients, hcl, hdb, hrun, rfl, -⟩
  rcases hp db ⟨cl, hcl, hdb⟩ r ds hrun with honly | ⟨a, rfl, ha⟩
  · have hnone : s.OnlyExpires { s with databases := _, env := _, clients := clients } :=
      .of_database hdb rfl rfl honly
    cases r with
    | ok a => exact (hnothing a _ hnone).mono fun _ _ => .inl
    | error e => exact .inl hnone
  · exact hgood a ds _ ha (.of_trace rfl)

/-- A reply that is accepted. -/
theorem handled_addReply {data : Bytes} (hdata : Accepted args data) {t : Server S} (ht : Spared c s t) :
    (addReply data : ServerM S c Unit).Post t (Handled c args s) :=
  (post_call t _).mpr fun _ hu => .inr ⟨rfl, ht.trans (.addReply (fun _ => hdata.1) hu), hdata.2⟩

/-- **A handler that works on a database and replies**, where what it does there is all or nothing. -/
theorem handled_databaseCommand {f : DatabaseCommand S}
    (hf : ∀ db, s.Selects c db → (f args).Post (s.dbState db)
      (DbState.AllOrNothing (fun reply _ => Accepted args reply) (s.dbState db))) :
    (databaseCommand f c args).Post s (Handled c args s) :=
  handled_onDatabase hf (fun reply => onlyExpires_addReply reply) fun _ _ _ hreply ht => handled_addReply hreply ht

/-- `SET`, which replies the same way. -/
theorem handled_setHandler : (setHandler c args).Post s (Handled c args s) := by
  refine handled_onDatabase (fun _ _ => allOrNothing_setCommand args) (fun x => ?_) fun x _ t hreply ht => ?_
  · dsimp only
    split
    · exact .bind onlyExpires_count fun _ => onlyExpires_addReply x.1
    · exact onlyExpires_addReply x.1
  · dsimp only
    split
    · rw [Program.post_bind]
      refine (post_modify t).mono ?_
      rintro _ _ ⟨rfl, rfl⟩
      exact handled_addReply hreply (ht.trans (.of_trace rfl))
    · exact handled_addReply hreply ht

omit [Platform] in
/-- A client that blocks has read the clock at most once, and has been sent nothing. -/
theorem blockClient_leaves {t : Server S} {keys : List Bytes} {timeout : ℤ} {cmd : RespValue} {target : Bytes}
    (h : s.blockClient c keys timeout cmd target = some t) : s.OnlyExpires t ∧ Spared c s t := by
  obtain ⟨cl, -, rfl⟩ := Option.map_eq_some_iff.mp h
  by_cases htimeout : 0 < timeout
  · simp only [blockDeadline, if_pos htimeout]
    exact ⟨.of_eq 1 rfl (funext fun k => congrArg s.env.clock (Nat.add_comm k 1)), .note fun data heq => by cases heq⟩
  · simp only [blockDeadline, if_neg htimeout]
    exact ⟨.of_same rfl rfl, .note fun data heq => by cases heq⟩

/-- **A blocking pop** takes an element and replies with it, or blocks the client, or refuses. -/
theorem handled_blockingPop (left : Bool) : (blockingPop left c args).Post s (Handled c args s) := by
  refine handled_onDatabase (fun _ _ => allOrNothing_bpopGeneric args left) (fun x => ?_) fun x _ t hgood ht => ?_
  · cases x with
    | reply data => exact onlyExpires_addReply data
    | block keys timeout strings =>
      exact fun t ht => (post_call t _).mpr fun u hu => ht.trans (blockClient_leaves hu).1
  · cases x with
    | reply data => exact handled_addReply hgood ht
    | block keys timeout strings =>
      exact (post_call t _).mpr fun u hu => .inr ⟨rfl, ht.trans (blockClient_leaves hu).2, hgood⟩

end Handlers

/-! ### Pushes -/

/-- A push that wakes a client. -/
def Server.Wakes (args : List RespValue) (s : Server S) : Prop :=
  ∃ key, ArgString args 1 key ∧ (s.firstWaiter key).isSome

/-- The clients who wait are the same, and a client is there as it was, but for its flags and its output. -/
structure Server.SameBut (c : ClientId) (s t : Server S) : Prop where
  blockedClients : t.blockedClients = s.blockedClients
  client : ∀ cl, s.clients.lookup c = some cl → ∃ cl', t.clients.lookup c = some cl' ∧ cl'.selectedDb = cl.selectedDb

section Pushes

open Server

variable [Platform] {s : Server S} {c : ClientId} {args : List RespValue} {left : Bool}

/-- The key on which a client is to be woken is the one that a push is for. -/
theorem yields_pushElements_key (args : List RespValue) (left : Bool) :
    (pushElements args left : DbM S _).Yields fun x => ∀ key, x.2 = some key → ArgString args 1 key := by
  have hkey : (argString args 1 : DbM S Bytes).Yields fun key => ArgString args 1 key := fun t key u hrun =>
    (post_argString args 1 t _ u hrun).2 key rfl
  refine .bind_of hkey fun key harg => .bind fun obj => ?_
  split
  · refine .bind fun list => .pure fun key' heq => ?_
    dsimp only at heq
    split at heq
    · exact Option.some.inj heq ▸ harg
    · cases heq
  · exact .pure fun _ heq => by cases heq

variable (c args left) in
/-- **What one push does**: something on the database, and if it has not failed there, it replies. -/
def PushEnds (s : Server S) (r : Except Exn Unit) (t : Server S) : Prop :=
  ∃ cl db r' ds, s.clients.lookup c = some cl ∧ s.databases[s.databaseIndex cl.selectedDb]? = some db ∧
    (pushElements args left).run (s.dbState db) = some (r', ds) ∧
    t.databases = s.databases.set (s.databaseIndex cl.selectedDb) ds.db ∧ t.env = ds.toEnv ∧ SameBut c s t ∧
    ((∃ e, r' = .error e ∧ r = .error e) ∨ ∃ x, r' = .ok x ∧ r = .ok () ∧ (¬IsError x.1 → Spared c s t))

/-- What a push does where nobody is woken. -/
theorem post_pushGeneric {wake : Bytes → ServerM S c Unit}
    (hwake : ∀ key, ArgString args 1 key → ∀ t : Server S, t.blockedClients = s.blockedClients →
      (wake key).Post t fun r u => r = .ok () ∧ u = t) :
    (pushGeneric wake args left).Post s (PushEnds c args left s) := by
  unfold pushGeneric
  rw [Program.post_bind]
  refine (post_modify s).mono ?_
  rintro _ _ ⟨rfl, rfl⟩
  -- the note that a push is on its way changes nothing that the push looks at
  dsimp only
  rw [Program.post_bind]
  -- the push on the database; an error there ends the handler
  refine (post_onDatabase (pushElements args left) _).mono ?_
  rintro r' t ⟨cl, db, ds, clients, hcl, hdb, hrun, rfl, hkept⟩
  have hclient (cl' : Client) (hcl' : s.clients.lookup c = some cl') :
      ∃ cl'', clients.lookup c = some cl'' ∧ cl''.selectedDb = cl'.selectedDb := by
    obtain ⟨flags, hflags⟩ := hkept c cl' hcl'
    exact ⟨_, hflags, rfl⟩
  cases r' with
  | error e => exact ⟨cl, db, .error e, ds, hcl, hdb, hrun, rfl, rfl, ⟨rfl, hclient⟩, .inl ⟨e, rfl, rfl⟩⟩
  | ok x =>
    dsimp only
    rw [Program.post_bind]
    refine (post_call _ _).mpr fun u hu => ?_
    have hnoted : Spared c s (s.note (s.pushEvent c args)) := .note fun data heq => by
      unfold pushEvent at heq
      cases heq
    -- the reply, which is an error only if the push answered with one
    have hspared (hx : ¬IsError x.1) : Spared c s u := by
      refine hnoted.trans (.trans (.of_trace ?_) (.addReply (fun _ => hx) hu))
      rfl
    have hsame : u.databases = s.databases.set (s.databaseIndex cl.selectedDb) ds.db ∧ u.env = ds.toEnv ∧
        SameBut c s u := by
      obtain ⟨v, hv, rfl⟩ := Option.map_eq_some_iff.mp hu
      obtain ⟨cl₁, hcl₁, rfl⟩ := Option.map_eq_some_iff.mp hv
      refine ⟨rfl, rfl, rfl, fun cl' hcl' => ⟨_, AList.lookup_insert _, ?_⟩⟩
      obtain ⟨cl'', hcl'', hselected⟩ := hclient cl' hcl'
      obtain rfl := Option.some.inj (hcl₁.symm.trans hcl'')
      exact hselected
    obtain ⟨hdatabases, henv, hbut⟩ := hsame
    have hend : PushEnds c args left s (.ok ()) u :=
      ⟨cl, db, .ok x, ds, hcl, hdb, hrun, hdatabases, henv, hbut, .inr ⟨x, rfl, rfl, hspared⟩⟩
    dsimp only
    split
    · next key hkey =>
      -- the key that is handed on wakes nobody
      have harg := yields_pushElements_key args left _ _ _ hrun key hkey
      refine (hwake key harg u hbut.blockedClients).mono ?_
      rintro _ _ ⟨rfl, rfl⟩
      exact hend
    · exact (Program.post_pure ..).mpr hend

omit [Platform] in
/-- The database that a client has selected, after a push. -/
theorem selects_of_push {t : Server S} {cl : Client} {db : Database S} {ds : DbState S}
    (hcl : s.clients.lookup c = some cl) (hdb : s.databases[s.databaseIndex cl.selectedDb]? = some db)
    (hdatabases : t.databases = s.databases.set (s.databaseIndex cl.selectedDb) ds.db) (hbut : SameBut c s t) :
    ∀ db', t.Selects c db' → db' = ds.db := by
  rintro db' ⟨cl', hcl', hdb'⟩
  obtain ⟨cl'', hcl'', hselected⟩ := hbut.client cl hcl
  obtain rfl := Option.some.inj (hcl'.symm.trans hcl'')
  have hindex : t.databaseIndex cl'.selectedDb = s.databaseIndex cl.selectedDb := by
    rw [databaseIndex, databaseIndex, hdatabases, List.length_set, hselected]
  rw [hindex, hdatabases, List.getElem?_set_self (List.getElem?_eq_some_iff.mp hdb).1] at hdb'
  exact (Option.some.inj hdb').symm

/-- A push that does not stop halfway. -/
theorem PushEnds.handled {r : Except Exn Unit} {t : Server S} (h : PushEnds c args left s r t)
    (hpart : ∀ db, s.Selects c db → ¬HalfwayInto .list RespValue.IsString (args.drop 2) args (s.dbState db)) :
    Handled c args s r t := by
  obtain ⟨cl, db, r', ds, hcl, hdb, hrun, hdatabases, henv, hbut, hend⟩ := h
  rcases allOrNothing_pushElements (hpart db ⟨cl, hcl, hdb⟩) r' ds hrun with ⟨honly, -⟩ | ⟨x, rfl, hpushed, -⟩
  · exact .inl (.of_database hdb hdatabases henv honly)
  · rcases hend with ⟨e, heq, -⟩ | ⟨y, heq, hr, hspared⟩
    · cases heq
    · obtain rfl := Except.ok.inj heq
      exact .inr ⟨hr, hspared hpushed.1, hpushed.2⟩

/-- `RPUSH` pushes a second time. The first time leaves a list at the key, or what is there is no list and stays. -/
theorem handled_rpush {wake : Bytes → ServerM S c Unit}
    (hwake : ∀ key, ArgString args 1 key → ∀ t : Server S, t.blockedClients = s.blockedClients →
      (wake key).Post t fun r u => r = .ok () ∧ u = t)
    (hpart : ∀ db, s.Selects c db → ¬HalfwayInto .list RespValue.IsString (args.drop 2) args (s.dbState db))
    (hstays : ∀ db key v, s.Selects c db → ArgString args 1 key →
      db.valueAt ((s.dbState db).clock 0) key = some v → (∀ list, v ≠ .list list) → db.expires.lookup key = none) :
    (pushGeneric wake args false >>= fun _ => pushGeneric wake args false).Post s (Handled c args s) := by
  rw [Program.post_bind]
  refine (post_pushGeneric hwake).mono fun r t hfirst => ?_
  cases r with
  -- the first push raises, and there is no second one
  | error e => exact hfirst.handled hpart
  | ok _ =>
    obtain ⟨cl, db, r', ds, hcl, hdb, hrun, hdatabases, henv, hbut, hend⟩ := hfirst
    have hselected := selects_of_push hcl hdb hdatabases hbut
    refine (post_pushGeneric fun key harg u hu => hwake key harg u (hu.trans hbut.blockedClients)).mono ?_
    intro r u hsecond
    obtain ⟨cl', db', r'', ds', hcl', hdb', hrun', hdatabases', henv', hbut', hend'⟩ := hsecond
    obtain rfl := hselected db' ⟨cl', hcl', hdb'⟩
    rcases allOrNothing_pushElements (hpart db ⟨cl, hcl, hdb⟩) r' ds hrun with
      ⟨honly, ⟨e, rfl⟩ | ⟨rfl, v, ⟨key, harg, hshown⟩, hno⟩⟩ | ⟨x, rfl, hpushed, key, obj, list, harg, -, hobj, hlist⟩
    · -- an error is not where a push returns
      rcases hend with ⟨_, -, heq⟩ | ⟨_, heq, -⟩ <;> cases heq
    · -- what is at the key is still there
      have hnone := hstays db key v ⟨cl, hcl, hdb⟩ harg hshown hno
      have hstill : (t.dbState ds.db).db.valueAt ((t.dbState ds.db).clock 0) key = some v :=
        DbState.shows_still honly hshown hnone _
      obtain ⟨honly', -⟩ := post_pushElements_wrongType harg hstill hno r'' ds' hrun'
      exact .inl (.trans (.of_database hdb hdatabases henv honly) (.of_database hdb' hdatabases' henv' honly'))
    · -- there is a list now
      have hstrings (a : RespValue) (ha : a ∈ args.drop 2) : a.IsString :=
        hpushed.2 a (List.mem_of_mem_drop (i := 1) (by rwa [List.drop_drop]))
      have hthere (v : Value S) (hv : ds.db.valueAt ((t.dbState ds.db).clock 0) key = some v) :
          ∃ list, v = .list list := by
        obtain ⟨obj', hobj', rfl⟩ := Option.map_eq_some_iff.mp hv
        unfold Database.visible at hobj'
        split at hobj'
        · cases hobj'
        · obtain rfl := Option.some.inj (hobj.symm.trans hobj')
          exact ⟨list, hlist⟩
      obtain ⟨x', rfl, hpushed', -⟩ := returns_pushElements harg hstrings hthere r'' ds' hrun'
      rcases hend with ⟨_, heq, -⟩ | ⟨y, heq, -, hspared⟩ <;> cases heq
      rcases hend' with ⟨_, heq, -⟩ | ⟨y', heq, hr, hspared'⟩ <;> cases heq
      exact .inr ⟨hr, (hspared hpushed.1).trans (hspared' hpushed'.1), hpushed.2⟩

end Pushes

/-! ### Every write command -/

/-- **A command is carried out in part**, or, for a push, something else is carried out with it: it stops halfway, or has
arguments that it does not look at and that cannot be logged; it wakes a client, or pushes a second time onto a key
that may have expired by then. -/
def Server.InPart [Double S] (c : ClientId) (cmd : Command) (args : List RespValue) (s : Server S) : Prop :=
  (cmd = .lpush ∨ cmd = .rpush) ∧ s.Wakes args ∨
    ∃ db, s.Selects c db ∧ (cmd.StopsHalfway args (s.dbState db) ∨ (∃ a ∈ cmd.unread args, ¬a.IsString) ∨
      cmd = .rpush ∧ ∃ key v deadline, ArgString args 1 key ∧ db.valueAt ((s.dbState db).clock 0) key = some v ∧
        (∀ list, v ≠ .list list) ∧ db.expires.lookup key = some deadline)

section Write

open Server

variable [Platform] [Double S] [Inhabited S] [LT S] [DecidableLT S] [BEq S] {s : Server S} {c : ClientId}
  {args : List RespValue} {depth : ℕ}

/-- Nobody is woken where nobody waits. -/
theorem wakes_nobody {key : Bytes} (h : s.firstWaiter key = none) :
    ((callbacks depth : Callbacks S).wake c key).Post s fun r t => r = .ok () ∧ t = s := by
  intro r t hrun
  cases depth with
  | zero => cases hrun
  | succ depth =>
    replace hrun : (handleClientsBlockedOnKey (callbacks depth) c key).run s = some (r, t) := hrun
    simp only [handleClientsBlockedOnKey, h] at hrun
    obtain ⟨rfl, rfl⟩ := Prod.mk.inj (Option.some.inj hrun)
    exact ⟨rfl, rfl⟩

/-- `ZADD`, unless it stops halfway. -/
theorem handled_zaddHandler
    (h : ∀ db, s.Selects c db →
      ¬(args.length % 2 = 0 ∧ HalfwayInto .zset (ScoreAndMember S) (inPairs (args.drop 2)) args (s.dbState db))) :
    (zaddHandler c args : ServerM S c Unit).Post s (Handled c args s) := by
  unfold zaddHandler
  rw [Program.post_bind]
  refine (post_modify s).mono ?_
  rintro _ _ ⟨rfl, rfl⟩
  dsimp only
  rw [Program.post_bind, draw, Program.post_step]
  intro rng t hdraw
  obtain ⟨-, rfl⟩ := Prod.mk.inj (Option.some.inj hdraw)
  -- what is noted beforehand is the event for the sorted set, which is no reply
  have hnoted : Spared c s (s.note (s.zaddEvent c args)) := .note fun data heq => by
    unfold zaddEvent at heq
    cases heq
  have hspared : Spared c s (s.note (s.zaddEvent c args)).freshRng.2 := hnoted.trans (.of_trace rfl)
  have hrun : (onDatabase (zaddCommand rng args) >>= fun reply => addReply reply : ServerM S c Unit).Post
      (s.note (s.zaddEvent c args)).freshRng.2 (Handled c args (s.note (s.zaddEvent c args)).freshRng.2) :=
    handled_onDatabase (fun db hdb => allOrNothing_zaddCommand rng (h db hdb)) (fun reply => onlyExpires_addReply reply)
      fun _ _ _ hreply ht => handled_addReply hreply ht
  refine hrun.mono fun r u hu => Handled.of_spared ?_ ?_ hspared hu
  · rfl
  · rfl

/-- **The handlers of all write commands.** Each has its lemma; what they share is that refusals come before changes. -/
theorem handled_handler {cmd : Command} (hwrite : .write ∈ cmd.flags) (hpart : ¬s.InPart c cmd args) :
    (cmd.handler (callbacks depth) c args).Post s (Handled c args s) := by
  -- that the command stops halfway, that an argument it reads is no string, that a push wakes a client: none
  -- is the case
  have hnot (db : Database S) (hdb : s.Selects c db) : ¬cmd.StopsHalfway args (s.dbState db) :=
    fun h => hpart (.inr ⟨db, hdb, .inl h⟩)
  have hunread (db : Database S) (hdb : s.Selects c db) : ∀ a ∈ cmd.unread args, a.IsString := by
    intro a ha
    by_contra hno
    exact hpart (.inr ⟨db, hdb, .inr (.inl ⟨a, ha, hno⟩)⟩)
  have hwake (hpush : cmd = .lpush ∨ cmd = .rpush) (key : Bytes) (harg : ArgString args 1 key) (t : Server S)
      (ht : t.blockedClients = s.blockedClients) :
      ((callbacks depth : Callbacks S).wake c key).Post t fun r u => r = .ok () ∧ u = t := by
    refine wakes_nobody ?_
    rw [firstWaiter, ht]
    by_contra hsome
    exact hpart (.inl ⟨hpush, key, harg, Option.isSome_iff_ne_none.mpr hsome⟩)
  cases cmd with
  | flushdb => exact handled_databaseCommand fun db hdb => allOrNothing_flushdbCommand (hunread db hdb)
  | lpush =>
    refine (post_pushGeneric (hwake (.inl rfl))).mono fun r t ht => ht.handled hnot
  | rpush =>
    -- the value of the wrong type has no deadline that could pass between the two pushes
    refine handled_rpush (hwake (.inr rfl)) hnot fun db key v hdb harg hshown hno => ?_
    by_contra hsome
    obtain ⟨deadline, hdeadline⟩ := Option.ne_none_iff_exists'.mp hsome
    exact hpart (.inr ⟨db, hdb, .inr (.inr ⟨rfl, key, v, deadline, harg, hshown, hno, hdeadline⟩)⟩)
  | lpop => exact handled_databaseCommand fun db hdb => allOrNothing_popGeneric (hunread db hdb) true
  | rpop => exact handled_databaseCommand fun db hdb => allOrNothing_popGeneric (hunread db hdb) false
  | blpop => exact handled_blockingPop true
  | brpop => exact handled_blockingPop false
  | hset => exact handled_databaseCommand fun db hdb => allOrNothing_hsetCommand (hnot db hdb)
  | sadd => exact handled_databaseCommand fun db hdb => allOrNothing_saddCommand (hnot db hdb)
  | srem => exact handled_databaseCommand fun db hdb => allOrNothing_sremCommand (hnot db hdb)
  | zadd => exact handled_zaddHandler hnot
  | zrem => exact handled_databaseCommand fun db hdb => allOrNothing_zremCommand (hnot db hdb)
  | set => exact handled_setHandler
  | del => exact handled_databaseCommand fun db hdb => allOrNothing_delCommand (hnot db hdb)
  | mset => exact handled_databaseCommand fun db hdb => allOrNothing_msetCommand (hnot db hdb)
  | append => exact handled_databaseCommand fun db hdb => allOrNothing_appendCommand (hunread db hdb)
  | incr => exact handled_databaseCommand fun db hdb => allOrNothing_incrCommand (hunread db hdb) _
  | decr => exact handled_databaseCommand fun db hdb => allOrNothing_incrCommand (hunread db hdb) _
  | incrby => exact handled_databaseCommand fun db hdb => allOrNothing_incrbyWith (hunread db hdb) _
  | decrby => exact handled_databaseCommand fun db hdb => allOrNothing_incrbyWith (hunread db hdb) _
  | setnx => exact handled_databaseCommand fun db hdb => allOrNothing_setnxCommand (hunread db hdb)
  | rename => exact handled_databaseCommand fun db hdb => allOrNothing_renameCommand (hunread db hdb)
  | expire =>
    exact handled_databaseCommand fun db hdb => allOrNothing_deadlineCommand (hunread db hdb) fun key n t =>
      (DbM.returns_call t _).mpr trivial
  | pexpire =>
    exact handled_databaseCommand fun db hdb => allOrNothing_deadlineCommand (hunread db hdb) fun key n t =>
      (DbM.returns_call t _).mpr trivial
  | expireat =>
    exact handled_databaseCommand fun db hdb => allOrNothing_deadlineCommand (hunread db hdb) fun key n t =>
      (DbM.returns_call t _).mpr trivial
  | pexpireat =>
    exact handled_databaseCommand fun db hdb => allOrNothing_deadlineCommand (hunread db hdb) fun key n t =>
      (DbM.returns_call t _).mpr trivial
  | persist => exact handled_databaseCommand fun db hdb => allOrNothing_persistCommand (hunread db hdb)
  | _ => exact absurd hwrite (by decide)

end Write

/-! ### Commands -/

namespace Server

/-- The data are the same, the clock stands where it stood, and the client has been sent no error. -/
structure Harmless (c : ClientId) (s t : Server S) : Prop where
  databases : t.databases = s.databases
  env : t.env = s.env
  spared : Spared c s t

namespace Harmless

variable {c writer : ClientId} {s t u : Server S}

/-- Where nothing happens. -/
theorem refl (s : Server S) : Harmless c s s := ⟨rfl, rfl, .refl s⟩

/-- One step after another. -/
theorem trans (h : Harmless c s t) (h' : Harmless c t u) : Harmless c s u :=
  ⟨h'.databases.trans h.databases, h'.env.trans h.env, h.spared.trans h'.spared⟩

/-- What is sent to the replicas is no reply. -/
theorem complete {writes : Bool} {cmd : List RespValue} {r : Except Exn Unit}
    (h : s.complete writer writes cmd = some (r, t)) : Harmless c s t := by
  have hnoted : Harmless c s (s.note (.completed writes cmd)) := ⟨rfl, rfl, .note fun text heq => by cases heq⟩
  refine complete_keeps hnoted (fun _ => logWrite_keeps (I := Harmless c s) (fun _ hs => hs.trans ?_)
    (fun _ _ hu => hu.trans ?_) fun {u v id sent} _ _ hv hu => hu.trans ?_) h
  · exact ⟨rfl, rfl, .of_trace rfl⟩
  · exact ⟨rfl, rfl, .of_trace rfl⟩
  · obtain ⟨cl, -, rfl⟩ := Option.map_eq_some_iff.mp hv
    exact ⟨rfl, rfl, .note fun text heq => by cases heq⟩

/-- Then no key has expired either. -/
theorem onlyExpires (h : Harmless c s t) : s.OnlyExpires t := .of_same h.databases h.env

end Harmless

/-- A command of strings can be logged. -/
theorem complete_ok {writer : ClientId} {writes : Bool} {cmd : List RespValue} {s t : Server S} {r : Except Exn Unit}
    (hstrings : ∀ a ∈ cmd, a.IsString) (h : s.complete writer writes cmd = some (r, t)) : r = .ok () := by
  obtain ⟨args, hargs⟩ := RespValue.exists_mapM hstrings
  cases writes with
  | false => exact (Prod.mk.inj (Option.some.inj h)).1.symm
  | true =>
    replace h : (s.note (.completed true cmd)).logWrite writer cmd = some (r, t) := h
    -- strings can be written to the log
    have haof : ((s.note (.completed true cmd)).appendToAof cmd).1 = .ok () := by
      unfold appendToAof
      rw [hargs]
      split <;> rfl
    unfold logWrite at h
    rcases hx : (s.note (.completed true cmd)).appendToAof cmd with ⟨_ | _, u⟩
    all_goals rw [hx] at h haof
    · cases haof
    · replace h : u.propagateToReplicas writer cmd = some (r, t) := h
      unfold propagateToReplicas at h
      rw [hargs] at h
      split at h
      · exact (Prod.mk.inj (Option.some.inj h)).1.symm
      · obtain ⟨v, -, heq⟩ := Option.map_eq_some_iff.mp h
        exact (Prod.mk.inj heq).1.symm

/-- Evicting sends nothing. By induction on the turns. -/
theorem Evicting.trace [Platform] {policy : Bytes} {samples : ℤ} {target : ℕ} {s t : Server S}
    (h : Evicting policy samples target s t) : t.trace = s.trace := by
  induction h with
  | refl => rfl
  | tail _ hturn ih =>
    obtain ⟨i, hevict⟩ := hturn
    obtain ⟨db, ds, clients, -, -, rfl⟩ := hevict.spec
    exact ih

end Server

section Commands

open Server

variable [Platform] [Double S] [Inhabited S] [LT S] [DecidableLT S] [BEq S] {s t : Server S} {c : ClientId}
  {name : RespValue} {cmdName : Bytes} {cmd : Command} {args : List RespValue} {depth : ℕ}

/-- **The `try` block**: nothing has happened to the data, or the client has been sent no error. An exception of the
handler is turned into an error, and by then the handler has changed nothing. -/
theorem post_runHandler_of_not_inPart (hname : name.IsString) (hwrite : .write ∈ cmd.flags)
    (hpart : ¬s.InPart c cmd (name :: args)) :
    (runHandler (c := c) (callbacks depth) cmd hname args).Post s fun _ t => s.OnlyExpires t ∨ Spared c s t := by
  -- an exception becomes an error reply, which changes no data
  have hfailed (e : Exn) (t : Server S) (ht : s.OnlyExpires t) :
      (addReply (internalError e) : CommandM S c (.array (name :: args))).Post t fun _ u =>
        s.OnlyExpires u ∨ Spared c s u := (onlyExpires_addReply _ t ht).mono fun _ _ => .inl
  refine (Program.post_handle _ _ _ _).mpr ((Program.post_bind _ _ _ _).mpr ?_)
  refine Program.Post.mono ((Program.post_lift _ _ _).mpr (handled_handler hwrite hpart)) fun r t ht => ?_
  rcases ht with honly | ⟨rfl, hspared, hstrings⟩
  · cases r with
    | error e => exact hfailed e t honly
    | ok _ =>
      -- a command that has done nothing is counted and logged all the same
      refine (Program.post_bind _ _ _ _).mpr ((onlyExpires_count t honly).mono fun r u hu => ?_)
      cases r with
      | error e => exact hfailed e u hu
      | ok _ =>
        intro r v hv
        have hv : u.complete c (.write ∈ cmd.flags) (name :: args) = some (r, v) := hv
        have hlogged := hu.trans (Harmless.complete (c := c) hv).onlyExpires
        cases r with
        | error e => exact hfailed e v hlogged
        | ok _ => exact .inl hlogged
  · -- a command that has worked has strings as arguments, so it is logged without an exception
    have hall (a : RespValue) (ha : a ∈ name :: args) : a.IsString :=
      (List.mem_cons.mp ha).elim (fun heq => heq ▸ hname) (hstrings a)
    refine (Program.post_bind _ _ _ _).mpr ((post_modify t).mono ?_)
    rintro _ _ ⟨rfl, rfl⟩
    intro r v hv
    have hv : Server.complete c (.write ∈ cmd.flags) (name :: args) _ = some (r, v) := hv
    obtain rfl := complete_ok hall hv
    exact .inr (hspared.trans (.trans (.of_trace rfl) (Harmless.complete hv).spared))

omit [Double S] [Inhabited S] [LT S] [DecidableLT S] [BEq S] in
/-- Before a command, keys are evicted at most. -/
theorem post_outOfMemory {k : Option RespValue} (hs : s.WatchersThere) :
    (outOfMemory cmd : EffectM S k (some c) Empty Bool).Post s fun r t => (∃ refused, r = .ok refused) ∧
      Evicting s.config.maxMemoryPolicy s.evictionSamples s.evictionTarget s t := by
  unfold outOfMemory
  simp only [Program.post_bind, Program.post_read]
  split
  · exact (Program.post_pure ..).mpr ⟨⟨_, rfl⟩, .refl⟩
  · simp only [Program.post_bind, Program.post_read]
    split
    · exact (Program.post_pure ..).mpr ⟨⟨_, rfl⟩, .refl⟩
    · obtain ⟨_, u, hrun, hevicting, -⟩ := ends_evictKeysIfNeeded (k := k) (c := some c) hs
      refine (Program.post_bind _ _ _ _).mpr ((Program.post_handle _ _ _ _).mpr fun r t ht => ?_)
      obtain ⟨rfl, rfl⟩ := Prod.mk.inj (Option.some.inj (ht.symm.trans hrun))
      exact (Program.post_read ..).mpr ⟨⟨_, rfl⟩, hevicting⟩

/-- **A client that is sent an error finds the data as they were.** Where a write command replies with an error, keys
have been evicted at most before it is carried out, and from there on keys have expired at most; or it is one of the
commands that are carried out in part. For each write command the refusals of its handler come before its first
change, but in those listed under `InPart`; the clients that wait are served behind it, and need not be looked at. -/
theorem errors_leave_data {reserve : Reserve} (hs : Visited reserve depth s) (hname : name.asString = .ok cmdName)
    (hlookup : Command.lookup cmdName = some cmd) (hwrite : .write ∈ cmd.flags)
    {program : CommandM S c (.array (name :: args))}
    (hprogram : executeCommand (callbacks depth) c (.array (name :: args)) = .ok program)
    {r : Except Empty Unit} (hrun : program.run s = some (r, t)) (herror : ¬Spared c s t) :
    ∃ u, Evicting s.config.maxMemoryPolicy s.evictionSamples s.evictionTarget s u ∧
      (u.OnlyExpires t ∨ u.InPart c cmd (name :: args)) := by
  rw [executeCommand_of_name hname] at hprogram
  obtain rfl := Except.ok.inj hprogram
  have hpost : (executeNamed (c := c) (callbacks depth) hname args).Post s fun _ t => ∃ u,
      Evicting s.config.maxMemoryPolicy s.evictionSamples s.evictionTarget s u ∧
        (u.OnlyExpires t ∨ u.InPart c cmd (name :: args) ∨ Spared c s t) := by
    unfold executeNamed
    rw [hlookup]
    dsimp only
    rw [Program.post_bind]
    refine (post_outOfMemory hs.watchersThere).mono ?_
    rintro _ u ⟨⟨refused, rfl⟩, hevicting⟩
    dsimp only
    -- what comes after the eviction is looked at from there
    have hfrom {p : CommandM S c (.array (name :: args))} (hp : p.Keeps u.OnlyExpires) : p.Post u fun _ t => ∃ u,
        Evicting s.config.maxMemoryPolicy s.evictionSamples s.evictionTarget s u ∧
          (u.OnlyExpires t ∨ u.InPart c cmd (name :: args) ∨ Spared c s t) :=
      (hp u (.refl u)).mono fun _ t ht => ⟨u, hevicting, .inl ht⟩
    split
    · -- out of memory
      exact hfrom (onlyExpires_addReply _)
    · split
      · exact hfrom (onlyExpires_addReply _)
      · rw [Program.post_bind, post_client]
        intro cl hcl
        dsimp only
        split
        · -- in a transaction the command is queued
          refine hfrom (.bind (Robust.keeps_call fun s t ht hs => ?_) fun _ => onlyExpires_addReply _)
          obtain ⟨cl, -, rfl⟩ := Option.map_eq_some_iff.mp ht
          exact hs.trans (.of_same rfl rfl)
        · -- the handler runs, and the state is one of those excepted or not
          by_cases hpart : u.InPart c cmd (name :: args)
          · exact fun r t _ => ⟨u, hevicting, .inr (.inl hpart)⟩
          · refine (post_runHandler_of_not_inPart _ hwrite hpart).mono fun r t ht => ⟨u, hevicting, ?_⟩
            exact ht.imp_right fun hspared => .inr (.trans (.of_trace hevicting.trace) hspared)
  obtain ⟨u, hevicting, honly | hpart | hspared⟩ := hpost r t hrun
  · exact ⟨u, hevicting, .inl honly⟩
  · exact ⟨u, hevicting, .inr hpart⟩
  · -- without an error among the replies there is nothing to show
    exact absurd hspared herror

end Commands

section Sample

open Sample Server

/-- A string that is no number. -/
private def wordAtKey : List Turn := [.accept, sends 0 ["SET", "k", "v"]]

/-- An error for a client, in the trace. -/
private def isErrorTo (c : ClientId) : Event → Bool
  | .reply id data => id = c && data.head? = some 45
  | _ => false

/-- An error in the trace, as a test. -/
private theorem not_spared {c : ClientId} {s t : Server Score}
    (h : (t.trace.drop s.trace.length).any (isErrorTo c) = true) : ¬Spared c s t := by
  rintro ⟨es, hes, hno⟩
  rw [hes, List.drop_left, List.any_eq_true] at h
  obtain ⟨e, he, herror⟩ := h
  cases e with
  | reply id data =>
    obtain ⟨hid, hdata⟩ := Bool.and_eq_true_iff.mp herror
    obtain rfl := of_decide_eq_true hid
    have herror : data.head? = some 45 := of_decide_eq_true hdata
    exact hno data he herror
  | _ => cases herror

/-- The words of the command. -/
private def incr : RespValue := .bulkString (str "INCR")
private def ofKey : List RespValue := [.bulkString (str "k")]

/-- The name of `INCR`. -/
private theorem asString_incr : incr.asString = .ok (str "INCR") := rfl

/-- `INCR` of a word is refused, and the word is still there. -/
theorem errors_leave_data_incr : ∃ s t : Server Score, ran wordAtKey = some s ∧ ¬Spared 0 s t ∧
    ∃ u, Evicting s.config.maxMemoryPolicy s.evictionSamples s.evictionTarget s u ∧ u.OnlyExpires t := by
  have hran : ((ran wordAtKey).bind fun s =>
      ((executeNamed (c := 0) (callbacks 2) asString_incr ofKey).run s).map fun x =>
        (x.2.trace.drop s.trace.length).any (isErrorTo 0)) = some true := by decide +kernel
  obtain ⟨s, hs, hrun⟩ := Option.bind_eq_some_iff.mp hran
  obtain ⟨x, hx, herror⟩ := Option.map_eq_some_iff.mp hrun
  have hlookup : Command.lookup (str "INCR") = some .incr := rfl
  obtain ⟨u, hevicting, honly | hpart⟩ := errors_leave_data (.callback (reachable_ran hs)) asString_incr hlookup
    (by decide) (executeCommand_of_name asString_incr) hx (not_spared herror)
  · exact ⟨s, x.2, hs, not_spared herror, u, hevicting, honly⟩
  · -- `INCR` reads all of its arguments, and stops nowhere
    rcases hpart with ⟨hpush, -⟩ | ⟨db, -, hhalf | ⟨a, ha, -⟩ | ⟨hpush, -⟩⟩
    · rcases hpush with heq | heq <;> cases heq
    · exact hhalf.elim
    · cases ha
    · cases hpush

end Sample

end RedisDb
