import RedisDb.Commands.EvictionChoice
import RedisDb.Server.ClientTables
import RedisDb.Server.OnDatabase
import RedisDb.Server.WriteCommands

/-!
# Eviction

`evictKeysIfNeeded` goes round the databases, and takes a key out of each, until there is memory enough or a round has
taken none. Nothing says that a round gives memory back: the estimate of an object that has grown in place may have
been given back before, and `freeMemory` stops at zero. So the memory in use is no measure of how long the loop goes
on.

What a round does is to leave fewer keys and deadlines than there were (`keysThere`), as every turn that evicts does
(`ends_evictOne`). A turn that evicts nothing does not add any. So there is a last round (`ends_evictRounds`, by
induction on the rounds), and it is one that has found memory enough or no key in any database (`Fruitless`). The fuel
of the model is one more than there are keys and deadlines, and is never used up.

What is said of the keys is said of a turn first (`EvictsAt.spec`: keys go away from one database, each for a reason,
and clients are flagged). A run is a sequence of turns (`Evicting`), what stays in each of them stays in the run
(`Evicting.remains`), and what goes away in a run goes away in one of its turns (`Evicting.gone`). That turn has
chosen the key out of a sample, or has read the clock past its deadline.
-/

namespace RedisDb

/-- Where a property holds at the beginning of a run and not at its end, there is a step that ends it. By induction
on the run. -/
theorem exists_step_of_not {α : Type} {R : α → α → Prop} {P : α → Prop} {a b : α}
    (h : Relation.ReflTransGen R a b) (ha : P a) (hb : ¬P b) :
    ∃ c d, Relation.ReflTransGen R a c ∧ R c d ∧ Relation.ReflTransGen R d b ∧ P c ∧ ¬P d := by
  induction h using Relation.ReflTransGen.head_induction_on with
  | refl => exact absurd ha hb
  | head hstep hrest ih =>
    next c =>
    -- the property is lost in the first step, or further on
    by_cases hc : P c
    · obtain ⟨d, e, hcd, hde, heb, hd, he⟩ := ih hc
      exact ⟨d, e, .head hstep hcd, hde, heb, hd, he⟩
    · exact ⟨_, c, .refl, hstep, hrest, ha, hc⟩

/-- A sum over a list in which one element is replaced by one that counts for no more. By induction on the list. -/
theorem sum_map_set {α : Type} (f : α → ℕ) (b : α) (l : List α) : ∀ {i : ℕ} {a : α}, l[i]? = some a →
    (f b ≤ f a → ((l.set i b).map f).sum ≤ (l.map f).sum) ∧
      (f b < f a → ((l.set i b).map f).sum < (l.map f).sum) := by
  induction l with
  | nil => exact fun h => nomatch h
  | cons x l ih =>
    intro i a h
    cases i with
    | zero =>
      obtain rfl : x = a := Option.some.inj h
      simp only [List.set_cons_zero, List.map_cons, List.sum_cons]
      exact ⟨fun hle => by omega, fun hlt => by omega⟩
    | succ i =>
      obtain ⟨hle, hlt⟩ := ih (i := i) (a := a) h
      simp only [List.set_cons_succ, List.map_cons, List.sum_cons]
      exact ⟨fun h => Nat.add_le_add_left (hle h) _, fun h => Nat.add_lt_add_left (hlt h) _⟩

namespace Server

open DbState

variable {S : Type}

/-! ### Turns -/

section Run

variable [Platform]

/-- A turn of `evictKeysIfNeeded` at database `i`. -/
def EvictsAt (policy : Bytes) (samples : ℤ) (target i : ℕ) (s t : Server S) : Prop :=
  ∃ db evicted ds, s.databases[i]? = some db ∧
    (evictOne policy samples target).run (s.dbState db) = some (.ok evicted, ds) ∧ s.putDatabase i ds = some t

/-- Any number of turns. -/
def Evicting (policy : Bytes) (samples : ℤ) (target : ℕ) : Server S → Server S → Prop :=
  Relation.ReflTransGen fun s t => ∃ i, EvictsAt policy samples target i s t

/-- **A round that evicts nothing**: a turn at each of the databases, one after another, and none chooses a key. -/
inductive Fruitless (policy : Bytes) (samples : ℤ) (target : ℕ) : List ℕ → Server S → Server S → Prop
  | nil {s} : Fruitless policy samples target [] s s
  | snoc {visited : List ℕ} {i : ℕ} {s t u : Server S} {db : Database S} :
      Fruitless policy samples target visited s t → t.databases[i]? = some db →
      (t.dbState db).ChoosesNone policy samples → EvictsAt policy samples target i t u →
      Fruitless policy samples target (visited ++ [i]) s u

/-- How many keys and deadlines there are. -/
def keysThere (s : Server S) : ℕ := (s.databases.map fun db => db.size + db.expiresSize).sum

section Turns

variable {policy : Bytes} {samples : ℤ} {target i : ℕ} {s t u : Server S}

/-- **What a turn does**: keys go away from one database, clients are flagged. -/
theorem EvictsAt.spec (h : EvictsAt policy samples target i s t) : ∃ db ds clients,
    s.databases[i]? = some db ∧ Sheds ((s.dbState db).Chooses policy samples) (s.dbState db) ds ∧
      t = { s with databases := s.databases.set i ds.db, env := ds.toEnv, clients := clients } := by
  obtain ⟨db, evicted, ds, hdb, hrun, hput⟩ := h
  obtain ⟨_, _, hends, hsheds, -⟩ := ends_evictOne policy samples target (s.dbState db)
  obtain ⟨-, rfl⟩ := Prod.mk.inj (Option.some.inj (hrun.symm.trans hends))
  obtain ⟨clients, ht⟩ := flagDirty_spec _ hput
  exact ⟨db, ds, clients, hdb, hsheds, ht⟩

/-- What stays in a turn stays in every database, the one that it is at and the others. -/
theorem EvictsAt.remains (h : EvictsAt policy samples target i s t) {j : ℕ} {db : Database S}
    (hdb : s.databases[j]? = some db) : ∃ db', t.databases[j]? = some db' ∧ db.Remains db' := by
  obtain ⟨old, ds, clients, hold, hsheds, rfl⟩ := h.spec
  obtain ⟨hi, -⟩ := List.getElem?_eq_some_iff.mp hold
  show ∃ db', (s.databases.set i ds.db)[j]? = some db' ∧ db.Remains db'
  rw [List.getElem?_set]
  by_cases hij : i = j
  · subst hij
    obtain rfl := Option.some.inj (hold.symm.trans hdb)
    exact ⟨ds.db, by rw [if_pos rfl, if_pos hi], hsheds.remains⟩
  · exact ⟨db, by rw [if_neg hij, hdb], .refl db⟩

/-- A turn changes one database, and their number not. -/
theorem EvictsAt.length (h : EvictsAt policy samples target i s t) :
    t.databases.length = s.databases.length := by
  obtain ⟨db, ds, clients, -, -, rfl⟩ := h.spec
  exact List.length_set

/-- No memory is taken up. -/
theorem EvictsAt.memory (h : EvictsAt policy samples target i s t) :
    t.env.memory.usedMemory ≤ s.env.memory.usedMemory := by
  obtain ⟨db, ds, clients, -, hsheds, rfl⟩ := h.spec
  exact hsheds.memory

/-! ### Runs -/

/-- One run after another. -/
theorem Evicting.trans (h : Evicting policy samples target s t) (h' : Evicting policy samples target t u) :
    Evicting policy samples target s u := Relation.ReflTransGen.trans h h'

/-- What stays in a run was there before. By induction on the run. -/
theorem Evicting.remains (h : Evicting policy samples target s t) {j : ℕ} {db : Database S}
    (hdb : s.databases[j]? = some db) : ∃ db', t.databases[j]? = some db' ∧ db.Remains db' := by
  induction h with
  | refl => exact ⟨db, hdb, .refl db⟩
  | tail _ hstep ih =>
    obtain ⟨mid, hmid, hfirst⟩ := ih
    obtain ⟨i, hturn⟩ := hstep
    obtain ⟨db', hdb', hlast⟩ := hturn.remains hmid
    exact ⟨db', hdb', hfirst.trans hlast⟩

/-- By induction on the run. -/
theorem Evicting.length (h : Evicting policy samples target s t) :
    t.databases.length = s.databases.length := by
  induction h with
  | refl => rfl
  | tail _ hstep ih =>
    obtain ⟨i, hturn⟩ := hstep
    exact hturn.length.trans ih

/-- The key goes away from database `i` in a turn of the run, which chose it, or in which the clock was read at or
past its deadline. -/
def GoesAway (policy : Bytes) (samples : ℤ) (target : ℕ) (i : ℕ) (key : Bytes) (s t : Server S) : Prop :=
  ∃ u v db, Evicting policy samples target s u ∧ EvictsAt policy samples target i u v ∧
    Evicting policy samples target v t ∧ u.databases[i]? = some db ∧ key ∈ db.data ∧
    ((u.dbState db).Chooses policy samples key ∨ ∃ deadline, db.expires.lookup key = some deadline ∧
      ∃ n, (v.env.clock = fun k => u.env.clock (n + k)) ∧ ∃ j < n, deadline ≤ u.env.clock j)

/-- **What goes away in a run** goes away in one of its turns. -/
theorem Evicting.gone (h : Evicting policy samples target s t) {key : Bytes} {db db' : Database S}
    (hdb : s.databases[i]? = some db) (hdb' : t.databases[i]? = some db') (hkey : key ∈ db.data)
    (hgone : key ∉ db'.data) : GoesAway policy samples target i key s t := by
  -- the turn before which the key is there, and after which it is not
  obtain ⟨u, v, hbefore, ⟨j, hturn⟩, hafter, ⟨mid, hmid, hin⟩, hout⟩ := exists_step_of_not
    (P := fun u : Server S => ∃ db, u.databases[i]? = some db ∧ key ∈ db.data) h ⟨db, hdb, hkey⟩ fun ⟨d, hd, hk⟩ =>
      hgone (Option.some.inj (hd.symm.trans hdb') ▸ hk)
  obtain ⟨old, ds, clients, hold, hsheds, rfl⟩ := hturn.spec
  obtain ⟨hj, -⟩ := List.getElem?_eq_some_iff.mp hold
  -- the turn is one at this database, for it leaves the others as they are
  obtain rfl : j = i := by
    by_contra hne
    refine hout ⟨mid, ?_, hin⟩
    show (u.databases.set j ds.db)[i]? = some mid
    rw [List.getElem?_set_ne hne, hmid]
  obtain rfl := Option.some.inj (hold.symm.trans hmid)
  have hnot : key ∉ ds.db.data := fun h => hout ⟨ds.db, by
    show (u.databases.set j ds.db)[j]? = some ds.db
    rw [List.getElem?_set_self hj], h⟩
  obtain ⟨n, hclock, hwhy⟩ := hsheds.gone
  refine ⟨u, _, old, hbefore, hturn, hafter, hold, hin, (hwhy key hin hnot).imp_right ?_⟩
  rintro ⟨deadline, hd, hpast⟩
  exact ⟨deadline, hd, n, hclock, hpast⟩

/-- Under a policy that draws from the keys with a deadline, those without one stay. -/
theorem Evicting.volatile (h : Evicting policy samples target s t) {key : Bytes} {db db' : Database S}
    (hpolicy : (str "volatile").isPrefixOf policy = true) (hdb : s.databases[i]? = some db)
    (hdb' : t.databases[i]? = some db') (hkey : key ∈ db.data) (hgone : key ∉ db'.data) :
    key ∈ db.expires := by
  obtain ⟨u, v, mid, hbefore, -, -, hmid, -, hwhy⟩ := h.gone hdb hdb' hkey hgone
  -- it had a deadline when it went away, and nobody has been given one in between
  obtain ⟨mid', hmid', hremains⟩ := hbefore.remains hdb
  obtain rfl := Option.some.inj (hmid'.symm.trans hmid)
  refine hremains.mem_expires ?_
  rcases hwhy with ⟨hsample, -⟩ | ⟨deadline, hd, -⟩
  · have hsampled := (@randomSample_spec S (fun _ => False) samples
      ((str "volatile").isPrefixOf policy) (u.dbState mid')).1 key hsample
    rwa [hpolicy, if_pos rfl] at hsampled
  · exact mem_iff_lookup.mpr ⟨deadline, hd⟩

/-- At each of the databases a fruitless round comes to a point where no key is chosen. By induction on the round. -/
theorem Fruitless.chooses {is : List ℕ} (h : Fruitless policy samples target is s t) :
    Evicting policy samples target s t ∧ ∀ i ∈ is, ∃ u db, Evicting policy samples target s u ∧
      Evicting policy samples target u t ∧ u.databases[i]? = some db ∧
        (u.dbState db).ChoosesNone policy samples := by
  induction h with
  | nil => exact ⟨.refl, fun i hi => (List.not_mem_nil hi).elim⟩
  | @snoc visited j s t u db hround hdb hnone hturn ih =>
    have hlast : Evicting policy samples target t u := .single ⟨j, hturn⟩
    refine ⟨ih.1.trans hlast, fun i hi => ?_⟩
    rcases List.mem_append.mp hi with hi | hi
    · obtain ⟨v, d, hbefore, hafter, hd, hchoice⟩ := ih.2 i hi
      exact ⟨v, d, hbefore, hafter.trans hlast, hd, hchoice⟩
    · obtain rfl := List.mem_singleton.mp hi
      exact ⟨t, db, ih.1, hlast, hdb, hnone⟩

end Turns

/-! ### The loops -/

section Loops

variable {policy : Bytes} {samples : ℤ} {target : ℕ} {k : Option RespValue} {c : Option ClientId} {s t u : Server S}

/-- **A turn has an outcome**, where the clients that watch a key are there, and leaves them there. -/
theorem ends_turn {i : ℕ} {db : Database S} (hs : s.WatchersThere) (hdb : s.databases[i]? = some db) :
    (EffectM.onDatabaseAt i (evictOne policy samples target) : EffectM S k c Exn Bool).Ends s fun evicted t =>
      EvictsAt policy samples target i s t ∧ t.WatchersThere ∧
      if evicted then t.keysThere < s.keysThere
      else t.env.memory.usedMemory ≤ target ∨ (s.dbState db).ChoosesNone policy samples := by
  refine (EffectM.ends_onDatabaseAt hs hdb (ends_evictOne policy samples target (s.dbState db))).mono
    fun evicted t ⟨ds, hrun, ⟨hsheds, hresult⟩, hafter⟩ => ?_
  obtain ⟨clients, ht⟩ := hafter.eq
  refine ⟨⟨db, evicted, ds, hdb, hrun, hafter.put⟩, hafter.watchersThere, ?_⟩
  -- of the databases one counts for less, if the turn evicts
  have hsum := sum_map_set (fun db : Database S => db.size + db.expiresSize) ds.db s.databases hdb
  cases evicted with
  | true =>
    simp only [if_true] at hresult ⊢
    rw [ht]
    exact hsum.2 hresult
  | false =>
    simp only [Bool.false_eq_true, if_false] at hresult ⊢
    rw [ht]
    exact hresult

/-- **A round has an outcome.** One that evicts leaves fewer keys and deadlines, and one that does not leaves memory
enough, or was fruitless. By induction on the databases that are still to come, which is the loop rule. -/
theorem ends_round (hs : s.WatchersThere) :
    ((List.range s.databases.length).foldlM (fun evicted i => do
      return (← EffectM.onDatabaseAt i (evictOne policy samples target)) || evicted) false :
        EffectM S k c Exn Bool).Ends s fun evicted t =>
      Evicting policy samples target s t ∧ t.WatchersThere ∧
      if evicted then t.keysThere < s.keysThere
      else t.env.memory.usedMemory ≤ target ∨
        Fruitless policy samples target (List.range s.databases.length) s t := by
  refine Program.Ends.mono (Program.ends_foldlM (I := fun rest evicted t => Evicting policy samples target s t ∧
    t.WatchersThere ∧ t.keysThere ≤ s.keysThere ∧ ∃ visited, visited ++ rest = List.range s.databases.length ∧
      if evicted then t.keysThere < s.keysThere
      else t.env.memory.usedMemory ≤ target ∨ Fruitless policy samples target visited s t)
    (List.range s.databases.length) ?_ ⟨.refl, hs, le_rfl, [], rfl, ?_⟩) ?_
  -- a turn at the next database, with the databases visited before it
  · intro evicted i rest t ⟨hrun, ht, hkeys, visited, hvisited, hresult⟩
    have hi : i < t.databases.length := by
      rw [hrun.length]
      exact List.mem_range.mp (hvisited ▸ List.mem_append_right _ List.mem_cons_self)
    refine (ends_turn ht (List.getElem?_eq_getElem hi)).bind fun evicted' u ⟨hturn, hu, hresult'⟩ =>
      Program.ends_pure ⟨hrun.tail ⟨i, hturn⟩, hu, ?_, visited ++ [i], ?_, ?_⟩
    · -- this database holds no more keys than before, and the others are as they were
      obtain ⟨db, ds, clients, hdb, hsheds, rfl⟩ := hturn.spec
      exact ((sum_map_set _ ds.db t.databases hdb).1 hsheds.remains.size_le).trans hkeys
    · rw [← hvisited, List.append_assoc, List.singleton_append]
    · cases evicted' with
      -- this turn has evicted a key
      | true => exact lt_of_lt_of_le hresult' hkeys
      | false =>
        cases evicted with
        | true =>
          obtain ⟨db, ds, clients, hdb, hsheds, rfl⟩ := hturn.spec
          exact lt_of_le_of_lt ((sum_map_set _ ds.db t.databases hdb).1 hsheds.remains.size_le) hresult
        | false =>
          simp only [Bool.false_eq_true, if_false, Bool.or_self] at hresult hresult' ⊢
          -- memory that was enough is enough still
          rcases hresult with hless | hfruitless
          · exact .inl (hturn.memory.trans hless)
          · exact hresult'.imp_right fun hnone => hfruitless.snoc (List.getElem?_eq_getElem hi) hnone hturn
  · simpa using .inr Fruitless.nil
  · rintro evicted t ⟨hrun, ht, -, visited, hvisited, hresult⟩
    rw [List.append_nil] at hvisited
    exact ⟨hrun, ht, hvisited ▸ hresult⟩

/-- **The loop comes to an end** before the rounds do, where there are more of them than keys and deadlines. By
induction on the rounds. -/
theorem ends_evictRounds (rounds : ℕ) : ∀ {s : Server S}, s.WatchersThere → s.keysThere < rounds →
    (evictRounds policy samples target rounds : EffectM S k c Exn Unit).Ends s fun _ t =>
      Evicting policy samples target s t ∧ (t.env.memory.usedMemory ≤ target ∨ ∃ u,
        Evicting policy samples target s u ∧
          Fruitless policy samples target (List.range s.databases.length) u t) := by
  induction rounds with
  | zero => exact fun _ h => absurd h (Nat.not_lt_zero _)
  | succ rounds ih =>
    intro s hs hrounds
    unfold evictRounds
    refine (Program.ends_read (Q := fun used t => used = s.env.memory.usedMemory ∧ s = t) ⟨rfl, rfl⟩).bind ?_
    rintro _ _ ⟨rfl, rfl⟩
    split
    · next hless => exact Program.ends_pure ⟨.refl, .inl hless⟩
    · refine (Program.ends_read (Q := fun n t => n = s.databases.length ∧ s = t) ⟨rfl, rfl⟩).bind ?_
      rintro _ _ ⟨rfl, rfl⟩
      -- the next round: behind one that has evicted there are fewer keys than rounds left
      refine (ends_round hs).bind fun evicted t ⟨hrun, ht, hresult⟩ => ?_
      cases evicted with
      | true =>
        simp only [if_true] at hresult ⊢
        refine (ih ht (by omega)).mono fun _ v ⟨hrest, hend⟩ => ⟨hrun.trans hrest, hend.imp_right ?_⟩
        rintro ⟨u, hu, hfruitless⟩
        exact ⟨u, hrun.trans hu, hrun.length ▸ hfruitless⟩
      | false =>
        simp only [Bool.false_eq_true, if_false] at hresult ⊢
        exact Program.ends_pure ⟨hrun, hresult.imp_right fun hfruitless => ⟨s, .refl, hfruitless⟩⟩

end Loops

/-! ### The whole eviction -/

/-- How many keys are drawn. -/
def evictionSamples (s : Server S) : ℤ := if 0 < s.config.maxMemorySamples then s.config.maxMemorySamples else 5

/-- How much memory may be in use, as a `size_t`. -/
def evictionTarget (s : Server S) : ℕ := asUInt64 s.config.maxMemory

/-- `evictKeysIfNeeded` has come to an end that it may come to. -/
def Relieved (s t : Server S) : Prop :=
  t.env.memory.usedMemory ≤ s.evictionTarget ∨ s.config.maxMemoryPolicy = str "noeviction" ∨
    ∃ u, Evicting s.config.maxMemoryPolicy s.evictionSamples s.evictionTarget s u ∧
      Fruitless s.config.maxMemoryPolicy s.evictionSamples s.evictionTarget
        (List.range s.databases.length) u t

section Eviction

variable {k : Option RespValue} {c : Option ClientId} {s : Server S}

/-- The checks of `evictKeysIfNeeded`, and behind them the loop, with more rounds than there are keys and deadlines. -/
theorem ends_evictKeysIfNeeded (hs : s.WatchersThere) :
    (evictKeysIfNeeded : EffectM S k c Exn Unit).Ends s fun _ t =>
      Evicting s.config.maxMemoryPolicy s.evictionSamples s.evictionTarget s t ∧
        (s.config.maxMemory = 0 ∨ s.Relieved t) := by
  unfold evictKeysIfNeeded
  refine (Program.ends_read (Q := fun config t => config = s.config ∧ s = t) ⟨rfl, rfl⟩).bind ?_
  rintro _ _ ⟨rfl, rfl⟩
  split
  · next hoff => exact Program.ends_pure ⟨.refl, hoff.imp_right fun h => .inr (.inl h)⟩
  · refine (Program.ends_read (Q := fun keys t => keys = s.keysThere ∧ s = t) ⟨rfl, rfl⟩).bind ?_
    rintro _ _ ⟨rfl, rfl⟩
    exact (ends_evictRounds (s.keysThere + 1) hs (Nat.lt_succ_self _)).mono fun _ t h =>
      ⟨h.1, .inr (h.2.imp_right .inr)⟩

/-- The clients that watch a key are there at all times. -/
theorem Visited.watchersThere [Double S] [Inhabited S] [LT S] [DecidableLT S] [BEq S] {reserve : Reserve}
    {depth : ℕ} (h : Visited reserve depth s) : s.WatchersThere := by
  have hconsistent : s.Consistent fun ref => ∃ key, ref = .watched key := h.consistent fun e _ => by
    cases e with
    | attached id again => exact fun ⟨key, heq⟩ => nomatch heq
    | blocked id left => exact fun key _ ⟨k, heq⟩ => nomatch heq
    | _ => trivial
  intro db hdb key watchers hwatch id hid
  -- a key that is watched is a reference to each of the clients that watch it, and such references are kept
  have href : s.tables.Refers id (.watched key) := ⟨db.watchedKeys, List.mem_map_of_mem hdb, by
    show id ∈ (db.watchedKeys.lookup key).getD []
    rwa [hwatch]⟩
  obtain ⟨cl, hcl, -⟩ := owns_of_refers hconsistent.agree ⟨key, rfl⟩ href
  exact ⟨cl, hcl⟩

/-- **Eviction** comes to an end. What goes away was chosen out of a sample, or had expired, and had a deadline where
the policy is to draw from the keys that have one; what stays keeps its value and its deadline. At the end there is
memory enough, or there is no limit, or nothing may be evicted, or nothing was in a whole round. A round takes a key
or a deadline away or is the last, so their number bounds the rounds; that the used memory falls is not needed.
`Evicting` is what any number of rounds has done. -/
theorem evictKeysIfNeeded_ends [Double S] [Inhabited S] [LT S] [DecidableLT S] [BEq S] {reserve : Reserve}
    {depth : ℕ} (h : Visited reserve depth s) :
    (evictKeysIfNeeded : EffectM S k c Exn Unit).Ends s fun _ t =>
      t.databases.length = s.databases.length ∧
      (∀ i db db', s.databases[i]? = some db → t.databases[i]? = some db' →
        db.Remains db' ∧ ∀ key ∈ db.data, key ∉ db'.data →
          GoesAway s.config.maxMemoryPolicy s.evictionSamples s.evictionTarget i key s t ∧
          ((str "volatile").isPrefixOf s.config.maxMemoryPolicy = true → key ∈ db.expires)) ∧
      (s.config.maxMemory = 0 ∨ s.Relieved t) := by
  refine (ends_evictKeysIfNeeded h.watchersThere).mono fun _ t ⟨hrun, hend⟩ => ⟨hrun.length, ?_, hend⟩
  intro i db db' hdb hdb'
  obtain ⟨rest, hrest, hremains⟩ := hrun.remains hdb
  obtain rfl := Option.some.inj (hrest.symm.trans hdb')
  exact ⟨hremains, fun key hkey hgone => ⟨hrun.gone hdb hdb' hkey hgone, fun hpolicy =>
    hrun.volatile hpolicy hdb hdb' hkey hgone⟩⟩

end Eviction

end Run

/-! ### No limit -/

section Sample

open Sample

/-- There is a key, and no limit. -/
def unlimited : List Turn :=
  [.accept, sends 0 ["CONFIG", "SET", "maxmemory-policy", "allkeys-random"], sends 0 ["SET", "k", "v"]]

/-- There is a key, and a limit of one byte. -/
def limited : List Turn := unlimited ++ [sends 0 ["CONFIG", "SET", "maxmemory", "1"]]

/-- With a limit of one byte, the only key there is goes away. -/
theorem evictKeysIfNeeded_ends_limited : ∃ s, ran limited = some s ∧ s.config.maxMemory = 1 ∧
    (evictKeysIfNeeded : EffectM Score none none Exn Unit).Ends s fun _ t => s.Relieved t := by
  have hran : (ran limited).map (fun s => s.config.maxMemory) = some 1 := by decide +kernel
  obtain ⟨s, hs, hlimit⟩ := Option.map_eq_some_iff.mp hran
  refine ⟨s, hs, hlimit, ?_⟩
  have hends := evictKeysIfNeeded_ends (k := none) (c := none) (.callback (reachable_ran hs))
  exact hends.mono fun _ t ht => ht.2.2.resolve_left fun hoff => absurd (hlimit.symm.trans hoff) (by decide)

/-- A policy that takes any key takes one, where there are keys. -/
theorem not_choosesNone_random {db : Database Score} {env : Env}
    (hkeys : ∀ key ∈ db.data, key = str "k") (hkey : str "k" ∈ db.data) :
    ¬DbState.ChoosesNone (str "allkeys-random") 5 ({ env with db := db } : DbState Score) := by
  obtain ⟨s, hs⟩ : ∃ s : DbState Score, s = { env with db := db } := ⟨_, rfl⟩
  have hdb : s.db = db := by rw [hs]
  rw [← hs]
  rintro ⟨chosen, t, hrun, hnone⟩
  rw [← hdb] at hkeys hkey
  have hsample : ∃ first rest, s.sample (str "allkeys-random") 5 = first :: rest := by
    have hlength : 0 < s.db.data.keys.length := List.length_pos_of_mem hkey
    -- the sample is drawn, and the policy returns the first of it
    have hdrawn := List.getElem?_eq_getElem (Nat.mod_lt (s.random 0) hlength)
    refine List.exists_cons_of_ne_nil fun hnil => ?_
    replace hnil : (sampleLoop s.db.data.keys 5 s).1 = [] := hnil
    rw [sampleLoop, hdrawn] at hnil
    cases hnil
  obtain ⟨first, rest, hfirst⟩ := hsample
  -- what is drawn is a key of the database, and there is only one
  have hmem : first ∈ s.db.data := (@randomSample_spec Score (fun _ => False) 5 false s).1 first
    (hfirst ▸ List.mem_cons_self : first ∈ s.sample (str "allkeys-random") 5)
  have hdraw : (DbM.randomSample 5 ((str "volatile").isPrefixOf (str "allkeys-random"))).run s
      = some (.ok (first :: rest), s.sampled (str "allkeys-random") 5) := by
    rw [← hfirst]
    rfl
  have hchosen : (keyToEvict (str "allkeys-random") 5).run s
      = some (.ok (some first), s.sampled (str "allkeys-random") 5) := by
    unfold keyToEvict
    rw [Program.run_bind_ok hdraw]
    rfl
  -- the choice that was said to find nothing is this one, and it finds the key
  obtain ⟨heq, -⟩ := Prod.mk.inj (Option.some.inj (hrun.symm.trans hchosen))
  rw [Except.ok.inj heq, Option.getD_some, hkeys first hmem] at hnone
  exact absurd hnone (by decide)

/-- Without a limit nothing is evicted, however much memory is in use. -/
theorem unlimited_not_relieved : ¬∀ s : Server Score, Visited (fun _ => none) 2 s →
    (evictKeysIfNeeded : EffectM Score none none Exn Unit).Ends s fun _ t => s.Relieved t := by
  intro hall
  -- a run of the server that leaves one key, the policy `allkeys-random` and no limit
  have hran : (ran unlimited).map (fun s => s.env.memory.usedMemory != 0 &&
      s.config.maxMemoryPolicy == str "allkeys-random" && s.config.maxMemory == 0 &&
      s.config.maxMemorySamples == 5 && (s.databases.map fun db => db.data.keys) == [[str "k"], []])
      = some true := by decide +kernel
  obtain ⟨s, hs, hsample⟩ := Option.map_eq_some_iff.mp hran
  simp only [Bool.and_eq_true, beq_iff_eq, bne_iff_ne] at hsample
  obtain ⟨⟨⟨⟨hused, hpolicy⟩, hlimit⟩, hsamples⟩, hkeys⟩ := hsample
  obtain ⟨_, t, hrun, hrelieved⟩ := hall s (.callback (reachable_ran hs))
  -- it returns at once
  obtain rfl : s = t := by
    have hoff : (evictKeysIfNeeded : EffectM Score none none Exn Unit).run s = some (.ok (), s) := by
      unfold evictKeysIfNeeded
      rw [Program.run_bind_ok (show (Program.read fun s : Server Score => s.config).run s = _ from rfl),
        if_pos (.inl hlimit)]
      rfl
    exact (Prod.mk.inj (Option.some.inj (hoff.symm.trans hrun))).2
  -- none of the three reasons to stop holds: memory is used, the policy evicts, and the sample finds the key
  rcases hrelieved with hless | hnoeviction | ⟨u, hu, hfruitless⟩
  · rw [evictionTarget, hlimit] at hless
    exact hused (Nat.le_zero.mp hless)
  · exact absurd (hpolicy.symm.trans hnoeviction) (by decide)
  · obtain ⟨db, hdb⟩ : ∃ db, s.databases[0]? = some db := by
      cases hdbs : s.databases with
      | nil => rw [hdbs] at hkeys; cases hkeys
      | cons db rest => exact ⟨db, rfl⟩
    have hdata : db.data.keys = [str "k"] := by
      have hmap := congrArg (·[0]?) hkeys
      simp only [List.getElem?_map, hdb, Option.map_some] at hmap
      exact Option.some.inj hmap
    have hmem {key : Bytes} : key ∈ db.data ↔ key = str "k" := by
      rw [AList.mem_keys, hdata, List.mem_singleton]
    obtain ⟨v, d, huv, hvs, hd, hnone⟩ := hfruitless.chooses.2 0 (List.mem_range.mpr
      (List.getElem?_eq_some_iff.mp hdb).1)
    -- a key of this database is there before the round and after it, and so at every point of it
    obtain ⟨d', hd', hbefore⟩ := (hu.trans huv).remains hdb
    obtain rfl := Option.some.inj (hd'.symm.trans hd)
    obtain ⟨d'', hd'', hafter⟩ := hvs.remains hd
    obtain rfl := Option.some.inj (hd''.symm.trans hdb)
    rw [hpolicy, show s.evictionSamples = 5 by rw [evictionSamples, hsamples]; rfl] at hnone
    exact not_choosesNone_random (fun key hkey => hmem.mp (hbefore.mem hkey)) (hafter.mem (hmem.mpr rfl)) hnone

end Sample

end Server

end RedisDb
