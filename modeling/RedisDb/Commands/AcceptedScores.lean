import RedisDb.Commands.OneKey
import RedisDb.Commands.ZsetCommands
import RedisDb.Storage.ScoreValues

/-!
# Sorted sets and the scores they accept

`ZADD` takes every score that `std::stod` reads, and that may be a NaN. A skip list finds a node by comparing scores,
so it does not find the node of a NaN again, nor one that a NaN stands in front of, while the dictionary finds every
member by its name. `ZREM` then takes a member out of the dictionary only.

A run of `ZADD` and `ZREM` whose scores all stand for numbers keeps the two indexes together (`sorted_sets_tolerate`):
`ZRANGE` lists the members that have a score.

The scores are of any type with the comparisons of `double`: what is asked of them is that some stand for numbers and
are compared as these are (`Compares`), and that a NaN, which stands for none, is neither less than anything nor equal
to it. What holds between commands is that the key is not there, or has a sorted set whose two indexes hold the same
scores, all of numbers, and no deadline (`DbState.Listing`). Each command keeps it (`post_zaddCommand`,
`post_zremCommand`), on its own key by an induction on its arguments and on another one since it leaves that alone,
and a run by induction. `ZRANGE` and `ZSCORE` then reply with what the invariant says, one from the skip list and the
other from the dictionary.
-/

namespace RedisDb

open RespSerializer

variable {S L : Type}

section Commands

variable [Platform] [Double S]

/-- The commands of a run, each `ZADD` with the heights that a new skip list is to draw. -/
inductive ZsetCommand where
  | zadd (rng : ℕ → Height) (args : List RespValue)
  | zrem (args : List RespValue)

/-- The scores that the loop of `zaddCommand` accepts, with their members. -/
def pairsRead : List RespValue → List (S × Bytes)
  | score :: member :: rest =>
    match converted Double.stod score, member.asString with
    | some x, .ok m => (x, m) :: pairsRead rest
    | _, _ => []
  | _ => []

/-- The scores that `zaddCommand` accepts. -/
def acceptedPairs (args : List RespValue) : List (S × Bytes) :=
  if args.length % 2 = 0 then pairsRead (args.drop 2) else []

variable (S) in
/-- A member that has been removed from the set at a key, and not been added again. The last command comes first. -/
def Removed (key member : Bytes) : List ZsetCommand → Prop
  | [] => False
  | .zadd _ args :: earlier => Removed key member earlier ∧
    ¬(ArgString args 1 key ∧ ∃ x : S, (x, member) ∈ acceptedPairs args)
  | .zrem args :: earlier => Removed key member earlier ∨
    ArgString args 1 key ∧ ∃ words, (args.drop 2).mapM RespValue.asString = .ok words ∧ member ∈ words

variable [Inhabited S] [LT S] [DecidableLT S] [BEq S]

/-- The handler. -/
def ZsetCommand.handler : ZsetCommand → DbM S Bytes
  | .zadd rng args => zaddCommand rng args
  | .zrem args => zremCommand args

/-- Runs of the commands, whatever they reply. The last command comes first. -/
inductive ZsetRun (s₀ : DbState S) : List ZsetCommand → DbState S → Prop
  | start : ZsetRun s₀ [] s₀
  | command {earlier : List ZsetCommand} {cmd : ZsetCommand} {s t : DbState S} {r : Except Exn Bytes}
      (h : ZsetRun s₀ earlier s) (hrun : cmd.handler.run s = some (r, t)) : ZsetRun s₀ (cmd :: earlier) t

/-- The scores that the command accepts stand for numbers. -/
def ZsetCommand.Numeric (value : S → Option L) : ZsetCommand → Prop
  | .zadd _ args => ∀ x m, (x, m) ∈ acceptedPairs args → ∃ a, value x = some a
  | .zrem _ => True

/-- `ZRANGE key 0 -1`. -/
def zrangeAll (key : Bytes) : DbM S Bytes := zrangeCommand <|
  [str "ZRANGE", key, str "0", str "-1"].map .bulkString

/-- `ZSCORE key member` does not reply null. -/
def HasScore (s : DbState S) (key member : Bytes) : Prop :=
  (zscoreCommand <| [str "ZSCORE", key, member].map .bulkString : DbM S Bytes).Ends s fun reply _ =>
    reply ≠ nullBulkString

/-- **What is asked of a state** that a run has come to: `ZRANGE` lists as many elements as there are members with a
score, and none that has been removed. -/
def Tolerates (key : Bytes) (cmds : List ZsetCommand) (s : DbState S) : Prop :=
  ∃ members : List Bytes, ((zrangeAll key).Ends s fun reply _ => reply = bulkStringArray members) ∧
    members.length = {member | HasScore s key member}.ncard ∧ ∀ member, Removed S key member cmds → member ∉ members

/-! ### Steps -/

omit [Platform] [Double S] in
/-- A bulk string has a length of its own, and the null reply is too short to be one. -/
theorem bulkString_ne_null (text : Bytes) : bulkString text ≠ nullBulkString := by
  intro heq
  have hlength := congrArg List.length heq
  have hpos : 0 < (toText text.length).length := List.length_pos_iff.mpr (Decimal.natText_ne_nil _)
  simp only [bulkString, List.length_append, List.length_cons] at hlength
  have hnull : nullBulkString.length = 5 := by decide
  have hcrlf : CRLF.length = 2 := rfl
  omega

/-- A key has a sorted set with these scores, which all stand for numbers, and no deadline; or it is not there. -/
def DbState.Listing (value : S → Option L) [Inhabited L] [LinearOrder L] (key : Bytes) (m : Bytes → Option S)
    (s : DbState S) : Prop :=
  (s.db.data.lookup key = none ∧ m = fun _ => none) ∨ ∃ obj z, s.db.data.lookup key = some obj ∧
    obj.value = .zset z ∧ s.db.expires.lookup key = none ∧ z.Numbers Platform.hash value m

variable [Inhabited L] [LinearOrder L] {value : S → Option L} {key : Bytes} {m : Bytes → Option S} {s t : DbState S}

open DbState

omit [Double S] [Inhabited S] [LT S] [DecidableLT S] [BEq S] in
/-- What the other keys keep. -/
theorem DbState.Listing.of_keepsOthers {key' : Bytes} (h : s.Listing value key m) (hne : key ≠ key')
    (hothers : Database.KeepsOthers key' s.db t.db) : t.Listing value key m := by
  obtain ⟨hdata, hexpires⟩ := hothers key hne
  unfold DbState.Listing
  rw [hdata, hexpires]
  exact h

omit [Double S] [Inhabited S] [LT S] [DecidableLT S] [BEq S] in
/-- What is at the end of the pointer of a command. -/
theorem DbState.Listing.of_points {now : ℤ} {obj : RedisObject S} {z : SortedSet S} {m' : Bytes → Option S}
    (h : s.Listing value key m) (hpoints : Points now key obj s t) (hvalue : obj.value = .zset z)
    (hz : z.Numbers Platform.hash value m') : t.Listing value key m' := by
  refine .inr ⟨obj, z, hpoints.here, hvalue, ?_, hz⟩
  rw [hpoints.deadline]
  rcases h with ⟨hnone, -⟩ | ⟨-, -, -, -, hexpires, -⟩
  · rw [Database.valueAt_of_absent hnone]
    rfl
  · rw [hexpires, ite_self]

omit [Double S] [Inhabited S] [LT S] [DecidableLT S] [BEq S] in
/-- What a key shows, at any time. -/
theorem DbState.Listing.valueAt (h : s.Listing value key m) (now : ℤ) :
    (s.db.valueAt now key = none ∧ m = fun _ => none) ∨
      ∃ z, s.db.valueAt now key = some (.zset z) ∧ z.Numbers Platform.hash value m := by
  refine h.imp (fun ⟨hnone, hm⟩ => ⟨Database.valueAt_of_absent hnone, hm⟩) ?_
  rintro ⟨obj, z, hobj, hvalue, hexpires, hz⟩
  have hlive : ¬s.db.Expired now key := fun ⟨_, hd, _⟩ => nomatch hexpires.symm.trans hd
  exact ⟨z, hvalue ▸ Database.valueAt_of_live hobj hlive, hz⟩

omit [Double S] [Inhabited S] [LT S] [DecidableLT S] [BEq S] [Inhabited L] [LinearOrder L] in
/-- What is written back is written to its key. -/
theorem keepsOthers_putObject (obj : RedisObject S) :
    (DbM.putObject key obj).Keeps fun t => Database.KeepsOthers key s.db t.db := fun _ ht =>
  (DbM.post_putObject ..).mpr (ht.trans fun _ hk => ⟨AList.lookup_insert_ne hk, rfl⟩)

omit [Double S] [Inhabited S] [LT S] [DecidableLT S] [BEq S] [Inhabited L] [LinearOrder L] in
/-- What is deleted is the key. -/
theorem keepsOthers_del : (DbM.del key).Keeps fun t => Database.KeepsOthers key s.db t.db := fun t ht => by
  obtain ⟨-, hdata, hexpires, -⟩ := t.del_spec key
  refine (DbM.post_del ..).mpr (ht.trans fun k hk => ?_)
  rw [hdata, if_neg hk, hexpires]
  exact ⟨rfl, AList.lookup_erase_ne hk⟩

omit [Inhabited L] [LinearOrder L] in
/-- A loop works on its key. By induction on the scores and their members. -/
theorem keepsOthers_zaddLoop (obj : RedisObject S) (args : List RespValue) : ∀ {z : SortedSet S} {added : ℤ},
    (zaddLoop key obj z added args).Keeps fun t => Database.KeepsOthers key s.db t.db := by
  induction args using List.twoStepInduction with
  | nil => exact .pure _
  | singleton arg => exact .pure _
  | cons_cons score member rest ih _ =>
    intro z added
    rw [zaddLoop]
    cases (converted Double.stod score : Option S) with
    | none => exact .pure _
    | some x => exact .bind (.ofExcept _) fun name => .bind (keepsOthers_putObject _) fun _ => ih

omit [Inhabited L] [LinearOrder L] [Double S] in
/-- The loop of `ZREM` does too. By induction on the members. -/
theorem keepsOthers_zremLoop (obj : RedisObject S) (args : List RespValue) : ∀ {z : SortedSet S} {removed : ℤ},
    (zremLoop key obj z removed args).Keeps fun t => Database.KeepsOthers key s.db t.db := by
  induction args with
  | nil => exact .pure _
  | cons arg args ih => exact .bind (.ofExcept _) fun name => .bind (keepsOthers_putObject _) fun _ => ih

variable (h : Compares value) (hdefault : value default = some default)

include h hdefault

/-- **The loop of `ZADD`**. By induction on the scores and their members. -/
theorem post_zaddLoop {now : ℤ} (obj : RedisObject S) (args : List RespValue) :
    ∀ {z : SortedSet S} {m : Bytes → Option S} {added : ℤ} {t : DbState S},
    (∀ x member, (x, member) ∈ pairsRead args → ∃ a, value x = some a) → z.Numbers Platform.hash value m →
    Points now key { obj with value := .zset z } s t →
    (zaddLoop key obj z added args).Post t fun _ u => ∃ z' m', z'.Numbers Platform.hash value m' ∧
      Points now key { obj with value := .zset z' } s u ∧
      ∀ member, (∀ x : S, (x, member) ∉ pairsRead args) → m' member = m member := by
  induction args using List.twoStepInduction with
  | nil => exact fun _ hz hpoints => (Program.post_pure ..).mpr ⟨_, _, hz, hpoints, fun _ _ => rfl⟩
  | singleton arg => exact fun _ hz hpoints => (Program.post_pure ..).mpr ⟨_, _, hz, hpoints, fun _ _ => rfl⟩
  | cons_cons score member rest ih _ =>
    intro z m added t hnumeric hz hpoints
    rw [zaddLoop]
    cases hscore : (converted Double.stod score : Option S) with
    -- the loop stops at a score that does not convert, and keeps what it has added
    | none => exact (Program.post_pure ..).mpr ⟨_, _, hz, hpoints, fun _ _ => rfl⟩
    | some x =>
      simp only [Program.post_bind, Program.post_ofExcept, DbM.post_putObject]
      cases hmember : member.asString with
      | error e => exact ⟨_, _, hz, hpoints, fun _ _ => rfl⟩
      | ok name =>
        have hread : (pairsRead (score :: member :: rest) : List (S × Bytes)) = (x, name) :: pairsRead rest := by
          rw [pairsRead, hscore, hmember]
        rw [hread] at hnumeric
        obtain ⟨a, ha⟩ := hnumeric x name List.mem_cons_self
        -- the pair is added, with a score that stands for a number
        obtain ⟨m', hz', hothers⟩ := hz.add h hdefault name ha
        refine (ih (fun y k hk => hnumeric y k (List.mem_cons_of_mem _ hk)) hz' (hpoints.putObject _)).mono ?_
        rintro - u ⟨z'', m'', hz'', hu, hkept⟩
        -- a member that is in none of the pairs is not the first one, and not one of the rest
        refine ⟨z'', m'', hz'', hu, fun k hk => ?_⟩
        rw [hread] at hk
        rw [hkept k fun y hy => hk y (List.mem_cons_of_mem _ hy), hothers k]
        rintro rfl
        exact hk x List.mem_cons_self

/-- **`ZADD`** leaves the scores of the members alone that it does not name. The set starts as what is listed, or as a
new one, and the loop adds to it until a score cannot be read; another key keeps what it has. -/
theorem post_zaddCommand {rng : ℕ → Height} {args : List RespValue} (hs : s.Listing value key m)
    (hnumeric : (ZsetCommand.zadd rng args).Numeric value) :
    (zaddCommand rng args).Post s fun _ t => ∃ m', t.Listing value key m' ∧
      ∀ member, ¬(ArgString args 1 key ∧ ∃ x : S, (x, member) ∈ acceptedPairs args) → m' member = m member := by
  unfold zaddCommand
  split
  · exact (Program.post_pure ..).mpr ⟨m, hs, fun _ _ => rfl⟩
  · next heven =>
    have hpairs : (acceptedPairs args : List (S × Bytes)) = pairsRead (args.drop 2) := if_pos (not_not.mp heven)
    refine post_argString_bind (fun key' hkey' => ?_) fun _ e => ⟨m, hs, fun _ _ => rfl⟩
    refine (DbM.ends_objectForAdd key' _ s).post_bind fun obj t hadded => ?_
    obtain ⟨hpoints, hcases⟩ := hadded
    -- the object is the one at the key, or a new one, with no member
    by_cases hne : key = key'
    · subst hne
      obtain ⟨z, hvalue, hz⟩ : ∃ z, obj.value = .zset z ∧ z.Numbers Platform.hash value m := by
        rcases hs.valueAt (s.clock 0) with ⟨hnone, rfl⟩ | ⟨z, hsome, hz⟩
        · rcases hcases with ⟨hshown, -⟩ | ⟨-, hnew⟩
          · cases hnone.symm.trans hshown
          · exact ⟨_, hnew, SortedSet.numbers_new hdefault rng⟩
        · rcases hcases with ⟨hshown, -⟩ | ⟨hnone, -⟩
          · exact ⟨z, Option.some.inj (hshown.symm.trans hsome), hz⟩
          · cases hnone.symm.trans hsome
      have hstart : Points (s.clock 0) key { obj with value := .zset z } s t := by
        rw [← hvalue]
        exact hpoints
      simp only [hvalue]
      rw [Program.post_bind]
      -- the loop adds the pairs that can be read, until one cannot
      refine (post_zaddLoop h hdefault obj _ ?_ hz hstart).mono fun r u hu => ?_
      · intro x member hread
        exact hnumeric x member (hpairs ▸ hread)
      · obtain ⟨z', m', hz', hu, hothers⟩ := hu
        -- whatever ended the loop, what it has added is there, and nothing else
        have hend : ∃ m', u.Listing value key m' ∧ ∀ member,
            ¬(ArgString args 1 key ∧ ∃ x : S, (x, member) ∈ acceptedPairs args) → m' member = m member := by
          refine ⟨m', hs.of_points hu rfl hz', fun member hno => hothers member fun x hx => hno ⟨hkey', x, ?_⟩⟩
          exact hpairs ▸ hx
        cases r with
        | ok added => cases added <;> exact (Program.post_pure ..).mpr hend
        | error e => exact hend
    · -- what `ZADD` does to another key
      suffices hother : Database.KeepsOthers key' s.db t.db → Program.Post _ t fun _ t =>
          Database.KeepsOthers key' s.db t.db from (hother hpoints.others).mono fun _ u hu =>
        ⟨m, hs.of_keepsOthers hne hu, fun _ _ => rfl⟩
      intro hothers
      split
      · refine Program.Keeps.bind (keepsOthers_zaddLoop obj _) (fun r => ?_) t hothers
        cases r <;> exact .pure _
      · exact (Program.post_pure ..).mpr hothers

omit [Double S] in
/-- **The loop of `ZREM`**. By induction on the members. -/
theorem post_zremLoop {now : ℤ} (obj : RedisObject S) (args : List RespValue) :
    ∀ {z : SortedSet S} {m : Bytes → Option S} {removed : ℤ} {t : DbState S}, z.Numbers Platform.hash value m →
    Points now key { obj with value := .zset z } s t →
    (zremLoop key obj z removed args).Post t fun r u => ∃ z' m', z'.Numbers Platform.hash value m' ∧
      Points now key { obj with value := .zset z' } s u ∧ (∀ member, m member = none → m' member = none) ∧
      (∀ words, args.mapM RespValue.asString = .ok words → ∀ member ∈ words, m' member = none) ∧
      ∀ n z'', r = .ok (z'', n) → z'' = z' := by
  induction args with
  | nil =>
    intro z m removed t hz hpoints
    refine (Program.post_pure ..).mpr ⟨z, m, hz, hpoints, fun _ hk => hk, fun words hwords member hin => ?_, ?_⟩
    · obtain rfl := Except.ok.inj hwords
      cases hin
    · intro n z'' heq
      exact (Prod.mk.inj (Except.ok.inj heq)).1.symm
  | cons arg args ih =>
    intro z m removed t hz hpoints
    simp only [zremLoop, Program.post_bind, Program.post_ofExcept, DbM.post_putObject]
    cases hname : arg.asString with
    | error e =>
      -- what is no string has no text, so there is nothing to show of the words
      refine ⟨z, m, hz, hpoints, fun _ hk => hk, fun words hwords => ?_, nofun⟩
      obtain ⟨name, -, hok, -⟩ := RespValue.mapM_cons_eq_ok hwords
      cases hname.symm.trans hok
    | ok name =>
      refine (ih (hz.remove h hdefault name) (hpoints.putObject _)).mono ?_
      rintro r u ⟨z', m', hz', hu, hnone, hgone, hr⟩
      refine ⟨z', m', hz', hu, fun member hm => hnone member ?_, fun words hwords member hin => ?_, hr⟩
      -- a member without a score stays without, and the one that is named loses it
      · by_cases hk : member = name
        · rw [hk, Function.update_self]
        · rw [Function.update_of_ne hk, hm]
      · obtain ⟨name', rest, hok, hrest, rfl⟩ := RespValue.mapM_cons_eq_ok hwords
        obtain rfl := Except.ok.inj (hname.symm.trans hok)
        rcases List.mem_cons.mp hin with rfl | hin
        · exact hnone member (Function.update_self ..)
        · exact hgone rest hrest member hin

omit [Double S] in
/-- **`ZREM`** leaves no score to the members that it names, and gives none to any. The loop takes the members out one
by one, and where none is left the key goes. -/
theorem post_zremCommand {args : List RespValue} (hs : s.Listing value key m) :
    (zremCommand args : DbM S Bytes).Post s fun _ t => ∃ m', t.Listing value key m' ∧
      (∀ member, m member = none → m' member = none) ∧ ∀ member words, ArgString args 1 key →
        (args.drop 2).mapM RespValue.asString = .ok words → member ∈ words → m' member = none := by
  refine post_argString_bind (fun key' hkey' => ?_) fun hno e => ?_
  · rw [Program.post_bind, DbM.post_getObjectForWrite]
    have hspec := getObject_spec key' s
    by_cases hne : key = key'
    · subst hne
      rcases hx : s.getObject key with ⟨o, t⟩
      rw [hx] at hspec
      cases o with
      | none =>
        -- nothing is there
        obtain ⟨hnone, hgone, -⟩ := hspec
        refine (Program.post_pure ..).mpr ⟨fun _ => none, .inl ⟨hgone, rfl⟩, fun _ _ => rfl, fun _ _ _ _ _ => rfl⟩
      | some obj =>
        obtain ⟨hshown, hpoints, -⟩ := hspec
        obtain ⟨z, hvalue, hz⟩ : ∃ z, obj.value = .zset z ∧ z.Numbers Platform.hash value m := by
          rcases hs.valueAt (s.clock 0) with ⟨hnone, -⟩ | ⟨z, hsome, hz⟩
          · cases hnone.symm.trans hshown
          · exact ⟨z, Option.some.inj (hshown.symm.trans hsome), hz⟩
        have hstart : Points (s.clock 0) key { obj with value := .zset z } s t := by
          rw [← hvalue]
          exact hpoints
        simp only [hvalue]
        rw [Program.post_bind]
        refine (post_zremLoop h hdefault obj (args.drop 2) hz hstart).mono ?_
        rintro r u ⟨z', m', hz', hu, hnone, hgone, hr⟩
        have hend : u.Listing value key m' := hs.of_points hu rfl hz'
        cases r with
        -- the loop has stopped at an argument that is no string
        | error e => exact ⟨m', hend, hnone, fun member words _ hwords hin => hgone words hwords member hin⟩
        | ok x =>
          obtain ⟨z'', n⟩ := x
          obtain rfl := hr n z'' rfl
          dsimp only
          split
          · -- the last member has been taken out, and the key goes
            rw [Program.post_bind, DbM.post_del]
            refine (Program.post_pure ..).mpr ⟨fun _ => none, .inl ⟨?_, rfl⟩, fun _ _ => rfl, fun _ _ _ _ _ => rfl⟩
            obtain ⟨-, hdata, -⟩ := u.del_spec key
            rw [hdata, if_pos rfl]
          · exact (Program.post_pure ..).mpr
              ⟨m', hend, hnone, fun member words _ hwords hin => hgone words hwords member hin⟩
    · -- what `ZREM` does to another key
      suffices hother : Program.Post _ (s.getObject key').2 fun _ t => Database.KeepsOthers key' s.db t.db from
        hother.mono fun _ u hu => ⟨m, hs.of_keepsOthers hne hu, fun _ hm => hm, fun member words hkey =>
          absurd (hkey.unique hkey') hne⟩
      rcases hx : s.getObject key' with ⟨o, t⟩
      rw [hx] at hspec
      cases o with
      | none => exact (Program.post_pure ..).mpr hspec.2.2
      | some obj =>
        dsimp only
        split
        · refine Program.Keeps.bind (keepsOthers_zremLoop obj _) (fun x => ?_) t hspec.2.1.others
          split
          · exact .bind keepsOthers_del fun _ => .pure _
          · exact .pure _
        · exact (Program.post_pure ..).mpr hspec.2.1.others
  · -- without a key that is a string nothing happens
    exact ⟨m, hs, fun _ hm => hm, fun _ _ hkey => absurd hkey (hno key)⟩

/-! ### Runs -/

/-- **What a run does** to the scores of the members of a key. By induction on the run. -/
theorem ZsetRun.listing {s₀ : DbState S} {cmds : List ZsetCommand} (hrun : ZsetRun s₀ cmds s)
    (habsent : s₀.db.data.lookup key = none) (hnumeric : ∀ cmd ∈ cmds, cmd.Numeric value) :
    ∃ m, s.Listing value key m ∧ ∀ member, Removed S key member cmds → m member = none := by
  induction hrun with
  | start => exact ⟨fun _ => none, .inl ⟨habsent, rfl⟩, fun _ hno => hno.elim⟩
  | @command earlier cmd s t r _ hrun ih =>
    obtain ⟨m, hs, hremoved⟩ := ih fun cmd hcmd => hnumeric cmd (List.mem_cons_of_mem _ hcmd)
    cases cmd with
    | zadd rng args =>
      obtain ⟨m', ht, hkept⟩ := post_zaddCommand h hdefault hs (hnumeric _ List.mem_cons_self) r t hrun
      refine ⟨m', ht, fun member hmember => ?_⟩
      rw [hkept member hmember.2, hremoved member hmember.1]
    | zrem args =>
      obtain ⟨m', ht, hkept, hgone⟩ := post_zremCommand h hdefault hs r t hrun
      refine ⟨m', ht, fun member hmember => ?_⟩
      -- removed earlier and not put back since, or removed by this command
      rcases hmember with hearlier | ⟨hkey, words, hwords, hin⟩
      · exact hkept member (hremoved member hearlier)
      · exact hgone member words hkey hwords hin

omit h hdefault

omit [Inhabited S] [LT S] [DecidableLT S] [BEq S] in
/-- What `ZSCORE` replies, out of the dictionary. -/
theorem ends_zscore (hs : s.Listing value key m) (member : Bytes) :
    (zscoreCommand ([str "ZSCORE", key, member].map .bulkString) : DbM S Bytes).Ends s fun reply _ =>
      reply = (m member).elim nullBulkString fun x => bulkString (scoreText x) := by
  have hkey : ArgString ([str "ZSCORE", key, member].map .bulkString) 1 key := ⟨_, rfl, rfl⟩
  have hmember : ArgString ([str "ZSCORE", key, member].map .bulkString) 2 member := ⟨_, rfl, rfl⟩
  refine Program.ends_bind_of_run (argString_run hkey s) (Program.ends_bind_of_run (argString_run hmember s) ?_)
  refine DbM.ends_getObject_bind (fun t hnone _ => ?_) fun obj t hshown _ _ => ?_
  · rcases hs.valueAt (s.clock 0) with ⟨-, rfl⟩ | ⟨z, hsome, -⟩
    · exact Program.ends_pure rfl
    · cases hnone.symm.trans hsome
  · rcases hs.valueAt (s.clock 0) with ⟨hnone, -⟩ | ⟨z, hsome, hz⟩
    · cases hnone.symm.trans hshown
    obtain hvalue : obj.value = .zset z := Option.some.inj (hshown.symm.trans hsome)
    simp only [hvalue, hz.getScore]
    cases m member with
    | none => exact Program.ends_pure rfl
    | some x => exact Program.ends_pure rfl

omit [Inhabited S] [LT S] [DecidableLT S] [BEq S] in
/-- `ZSCORE` replies null for the members without a score. -/
theorem hasScore_iff (hs : s.Listing value key m) (member : Bytes) :
    HasScore s key member ↔ ∃ x, m member = some x := by
  obtain ⟨reply, t, hrun, hreply⟩ := ends_zscore hs member
  constructor
  · rintro ⟨reply', t', hrun', hne⟩
    obtain rfl := Except.ok.inj (Prod.mk.inj (Option.some.inj (hrun.symm.trans hrun'))).1
    -- the reply is the one of `ends_zscore`
    cases hm : m member with
    | none =>
      rw [hm] at hreply
      exact absurd hreply hne
    | some x => exact ⟨x, rfl⟩
  · rintro ⟨x, hx⟩
    rw [hx] at hreply
    exact ⟨reply, t, hrun, hreply ▸ bulkString_ne_null _⟩

omit [LT S] [DecidableLT S] [BEq S] in
/-- `ZRANGE` lists the members that have a score. The indices 0 and -1 ask for the whole row, of which each member
stands at one place. -/
theorem ends_zrangeAll (hdefault : value default = some default) (hs : s.Listing value key m)
    (hsize : ∀ obj z, s.db.data.lookup key = some obj → obj.value = .zset z → z.size < 2 ^ 32) :
    (zrangeAll key).Ends s fun reply _ => ∃ members : List Bytes,
      reply = bulkStringArray members ∧ members.Nodup ∧ ∀ member, member ∈ members ↔ ∃ x, m member = some x := by
  let args : List RespValue := [str "ZRANGE", key, str "0", str "-1"].map .bulkString
  have hkey : ArgString args 1 key := ⟨_, rfl, rfl⟩
  -- the two indices, as `std::stol` reads them
  have hstart : (argConverted stol args 2 : DbM S (Option ℤ)).run s = some (.ok (some 0), s) := by
    have hzero : converted stol (.bulkString (str "0")) = some 0 := by decide +kernel
    show some (Except.ok (converted stol (.bulkString (str "0"))), s) = _
    rw [hzero]
  have hstop : (argConverted stol args 3 : DbM S (Option ℤ)).run s = some (.ok (some (-1)), s) := by
    have hlast : converted stol (.bulkString (str "-1")) = some (-1) := by decide +kernel
    show some (Except.ok (converted stol (.bulkString (str "-1"))), s) = _
    rw [hlast]
  have hoption : (withScoresOption args : DbM S (Option Bool)).run s = some (.ok (some false), s) := rfl
  refine Program.ends_bind_of_run hoption (Program.ends_bind_of_run (argString_run hkey s) ?_)
  refine Program.ends_bind_of_run hstart (Program.ends_bind_of_run hstop ?_)
  -- there is no sorted set at the key, or one without a deadline
  obtain ⟨hnone, rfl⟩ | ⟨z, hsome, hz, hlt⟩ : (s.db.valueAt (s.clock 0) key = none ∧ m = fun _ => none) ∨
      ∃ z, s.db.valueAt (s.clock 0) key = some (.zset z) ∧ z.Numbers Platform.hash value m ∧ z.size < 2 ^ 32 := by
    rcases hs with ⟨hnone, hm⟩ | ⟨obj, z, hobj, hvalue, hexpires, hz⟩
    · exact .inl ⟨Database.valueAt_of_absent hnone, hm⟩
    · have hlive : ¬s.db.Expired (s.clock 0) key := fun ⟨_, hd, _⟩ => nomatch hexpires.symm.trans hd
      exact .inr ⟨z, hvalue ▸ Database.valueAt_of_live hobj hlive, hz, hsize obj z hobj hvalue⟩
  · refine DbM.ends_getObject_bind (fun t _ _ => ?_) fun obj t hshown _ _ => nomatch hnone.symm.trans hshown
    exact Program.ends_pure ⟨[], rfl, List.nodup_nil, fun _ => by simp⟩
  · -- the sorted set is read in full
    refine DbM.ends_getObject_bind (fun t hnone _ => nomatch hnone.symm.trans hsome) fun obj t hshown _ _ => ?_
    obtain hvalue : obj.value = .zset z := Option.some.inj (hshown.symm.trans hsome)
    obtain ⟨hnodup, hmem⟩ := hz.members hdefault hlt
    have hnames : ((z.rangeByRank 0 (-1)).flatMap fun e => if false then [e.1, scoreText e.2] else [e.1])
        = (z.rangeByRank 0 (-1)).map Prod.fst := List.map_eq_flatMap.symm
    simp only [hvalue]
    exact Program.ends_pure ⟨_, congrArg bulkStringArray hnames, hnodup, hmem⟩

include h hdefault

/-- **Sorted sets whose scores all stand for numbers tolerate them.** In every state that a run of `ZADD` and `ZREM`
comes to, from one in which the key is not there, as long as the set has fewer than `2^32` members. The run keeps
`Listing`, that the set under the key is the one its commands describe, for which only the laws of the comparison are
used; `ZRANGE` then lists the members of this set. -/
theorem sorted_sets_tolerate {s₀ : DbState S} {cmds : List ZsetCommand} (hrun : ZsetRun s₀ cmds s)
    (habsent : s₀.db.data.lookup key = none) (hnumeric : ∀ cmd ∈ cmds, cmd.Numeric value)
    (hsize : ∀ obj z, s.db.data.lookup key = some obj → obj.value = .zset z → z.size < 2 ^ 32) :
    Tolerates key cmds s := by
  obtain ⟨m, hs, hremoved⟩ := hrun.listing h hdefault habsent hnumeric
  obtain ⟨reply, t, hlisted, members, rfl, hnodup, hmem⟩ := ends_zrangeAll hdefault hs hsize
  refine ⟨members, ⟨_, t, hlisted, rfl⟩, ?_, fun member hmember hin => ?_⟩
  -- the members with a score are those that are listed, each once
  · have hset : {member | HasScore s key member} = ↑members.toFinset := by
      ext member
      rw [Set.mem_ofPred_eq, hasScore_iff hs, Finset.mem_coe, List.mem_toFinset, hmem]
    rw [hset, Set.ncard_coe_finset, List.toFinset_card_of_nodup hnodup]
  · obtain ⟨x, hx⟩ := (hmem member).mp hin
    cases (hremoved member hmember).symm.trans hx

end Commands

section Sample

open Sample

/-- Scores of which the greatest is a NaN. -/
structure Reading where
  score : Score

namespace Reading

/-- The NaN. -/
def nan : Reading := ⟨Fin.last _⟩

/-- The number that the reading stands for. -/
def value (x : Reading) : Option ℕ := if x.score = nan.score then none else some x.score

instance : Inhabited Reading := ⟨⟨default⟩⟩

instance : LT Reading := ⟨fun x y => x.score < y.score ∧ y.score ≠ nan.score⟩

instance : DecidableLT Reading := fun x y => inferInstanceAs (Decidable (x.score < y.score ∧ y.score ≠ nan.score))

instance : BEq Reading := ⟨fun x y => decide (x.score = y.score ∧ x.score ≠ nan.score)⟩

instance : Double Reading where
  toBits x := Double.toBits x.score
  ofBits b := ⟨Double.ofBits b⟩
  ofBits_toBits x := congrArg mk (Double.ofBits_toBits x.score)
  stod text := if text = str "nan" then .ok nan else (Double.stod text).map mk
  toText x := Double.toText x.score

/-- What a reading stands for is its score, but for the NaN. -/
theorem value_eq_some {x : Reading} {a : ℕ} : value x = some a ↔ x.score ≠ nan.score ∧ (x.score : ℕ) = a := by
  unfold value
  split
  · next heq => exact iff_of_false nofun fun hne => hne.1 heq
  · next hne => rw [Option.some_inj, and_iff_right hne]

/-- Readings compare as numbers do, and the NaN with nothing. -/
theorem compares_value : Compares value where
  lt_iff x y := by
    constructor
    · rintro ⟨hlt, hy⟩
      refine ⟨x.score, y.score, value_eq_some.mpr ⟨?_, rfl⟩, value_eq_some.mpr ⟨hy, rfl⟩, hlt⟩
      -- what is less than something is not the greatest
      intro hx
      have hlast : (nan.score : ℕ) = 2 ^ 64 - 1 := rfl
      have hgreater : (nan.score : ℕ) < y.score := hx ▸ hlt
      have hmax := y.score.isLt
      omega
    · rintro ⟨a, b, ha, hb, hlt⟩
      obtain ⟨-, rfl⟩ := value_eq_some.mp ha
      obtain ⟨hy, rfl⟩ := value_eq_some.mp hb
      exact ⟨hlt, hy⟩
  beq_iff x y := by
    refine decide_eq_true_iff.trans ⟨fun ⟨heq, hx⟩ => ?_, ?_⟩
    · exact ⟨x.score, value_eq_some.mpr ⟨hx, rfl⟩, value_eq_some.mpr ⟨heq ▸ hx, congrArg _ heq.symm⟩⟩
    · rintro ⟨a, ha, hb⟩
      obtain ⟨hx, rfl⟩ := value_eq_some.mp ha
      obtain ⟨-, heq⟩ := value_eq_some.mp hb
      exact ⟨Fin.ext heq.symm, hx⟩

end Reading

/-- `ZADD k 1 a 2 b`, and then `ZREM k a`. The last command comes first. -/
def removesNumber : List ZsetCommand :=
  [.zrem (["ZREM", "k", "a"].map fun word => .bulkString (str word)),
    .zadd (fun _ => ⟨1, one_inLevels⟩) (["ZADD", "k", "1", "a", "2", "b"].map fun word => .bulkString (str word))]

/-- `ZADD k 2 b nan a`, and then `ZREM k a`. -/
def removesNan : List ZsetCommand :=
  [.zrem (["ZREM", "k", "a"].map fun word => .bulkString (str word)),
    .zadd (fun _ => ⟨1, one_inLevels⟩) (["ZADD", "k", "2", "b", "nan", "a"].map fun word => .bulkString (str word))]

/-- The outcome of commands, the last of which comes first. -/
def ranCommands : List ZsetCommand → Option (DbState Reading)
  | [] => some { idleEnv with db := {} }
  | cmd :: earlier => (ranCommands earlier).bind fun s => (cmd.handler.run s).map (·.2)

/-- What has been run is a run. By induction on the commands. -/
theorem zsetRun_of_ran (cmds : List ZsetCommand) : ∀ {s : DbState Reading}, ranCommands cmds = some s →
    ZsetRun { idleEnv with db := {} } cmds s := by
  induction cmds with
  | nil =>
    intro s h
    obtain rfl := Option.some.inj h
    exact .start
  | cons cmd earlier ih =>
    intro s h
    obtain ⟨t, ht, h⟩ := Option.bind_eq_some_iff.mp h
    obtain ⟨⟨r, u⟩, hrun, rfl⟩ := Option.map_eq_some_iff.mp h
    exact .command (ih ht) hrun

/-- The number of members of the set at `k`. -/
def sizeAt (s : DbState Reading) : Option ℕ :=
  (s.db.data.lookup (str "k")).bind fun obj => match obj.value with
    | .zset z => some z.size
    | _ => none

/-- One member is not too many. -/
theorem lt_of_sizeAt {s : DbState Reading} (h : sizeAt s = some 1) {obj : RedisObject Reading} {z : SortedSet Reading}
    (hobj : s.db.data.lookup (str "k") = some obj) (hz : obj.value = .zset z) : z.size < 2 ^ 32 := by
  rw [sizeAt, hobj, Option.bind_some, hz] at h
  rw [Option.some.inj h]
  decide

/-- Numbers are tolerated. -/
theorem sorted_sets_tolerate_numbers :
    ∃ s, ranCommands removesNumber = some s ∧ Tolerates (str "k") removesNumber s := by
  have hsize : (ranCommands removesNumber).map sizeAt = some (some 1) := by decide +kernel
  obtain ⟨s, hs, hone⟩ := Option.map_eq_some_iff.mp hsize
  have hpairs : ∀ p ∈ (acceptedPairs (["ZADD", "k", "1", "a", "2", "b"].map fun word => .bulkString (str word)) :
      List (Reading × Bytes)), (Reading.value p.1).isSome := by decide +kernel
  refine ⟨s, hs, sorted_sets_tolerate Reading.compares_value rfl (zsetRun_of_ran _ hs) rfl (fun cmd hcmd => ?_)
    fun obj z hobj hz => lt_of_sizeAt hone hobj hz⟩
  rcases List.mem_cons.mp hcmd with rfl | hcmd
  · trivial
  · rw [List.mem_singleton.mp hcmd]
    exact fun x member hin => Option.isSome_iff_exists.mp (hpairs _ hin)

/-- A member with a NaN is listed after it has been removed. -/
theorem nan_stays : ¬∀ (cmds : List ZsetCommand) (key : Bytes) (s : DbState Reading),
    ZsetRun { idleEnv with db := {} } cmds s →
    (∀ obj z, s.db.data.lookup key = some obj → obj.value = .zset z → z.size < 2 ^ 32) → Tolerates key cmds s := by
  intro hall
  have hlists : (ranCommands removesNan).map (fun s => (sizeAt s, ((zrangeAll (str "k")).run s).map (·.1)))
      = some (some 1, some (.ok (bulkStringArray [str "a"]))) := by decide +kernel
  obtain ⟨s, hs, hpair⟩ := Option.map_eq_some_iff.mp hlists
  obtain ⟨hone, hlisted⟩ := Prod.mk.inj hpair
  obtain ⟨members, ⟨reply, t, hrun, rfl⟩, -, hremoved⟩ := hall removesNan (str "k") s (zsetRun_of_ran _ hs)
    fun obj z hobj hz => lt_of_sizeAt hone hobj hz
  rw [hrun] at hlisted
  have hmembers : members = [str "a"] := bulkStringArray_injective (Except.ok.inj (Option.some.inj hlisted))
  have hgone : Removed Reading (str "k") (str "a") removesNan :=
    .inr ⟨⟨_, rfl, rfl⟩, [str "a"], rfl, List.mem_cons_self⟩
  exact hremoved _ hgone (hmembers ▸ List.mem_cons_self)

end Sample

end RedisDb
