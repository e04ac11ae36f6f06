import RedisDb.Commands.KeyCommands
import RedisDb.Storage.Keyspace

/-!
# Deadlines

The deadlines that `SET` with `EX` or `PX`, `EXPIRE`, `PEXPIRE`, `EXPIREAT` and `PEXPIREAT` store. The commands
multiply the argument by the number of milliseconds in its unit, and the relative ones add the result to the clock,
all of it in `int64_t`. `SET` looks whether the product is positive, and nothing looks whether product and sum fit.
Where they do, the deadline is exact; `DeadlineCommand.exact_iff` and `setExact_iff` say that it is exact only there.

The four commands differ in the unit and in what the product is added to (`DeadlineCommand.unit`,
`DeadlineCommand.base`), so each statement about them is one, with a case for each where the handlers are run. A call
that fails has changed nothing, since nothing fails any more once the method of the database has been called.

The options of `SET` are read by `readOptions`, into the numbers before anything is multiplied. `setOptions_outcome`
compares the loop of the handler with it, by the recursion of both: the loop has read all options and refused none, or
it has ended the command, by a reply or an exception. Behind the loop, `NX` and `XX` may each look at the key, which
reads the clock if the key has a deadline; so the reading that the deadline is added to is the first or the second
(`SetOptions.reading`).
-/

namespace RedisDb

open RespSerializer

/-- The reply is an error. -/
def IsError (reply : Bytes) : Prop := reply.head? = some 45

/-- A number is no error. -/
theorem not_isError_integer (n : ℤ) : ¬ IsError (integer n) := by simp [IsError, integer]

/-! ### The four commands -/

/-- The commands that give a deadline to a key that is there. -/
inductive DeadlineCommand where
  | expire
  | pexpire
  | expireat
  | pexpireat

namespace DeadlineCommand

/-- The milliseconds that one stands for. -/
def unit : DeadlineCommand → ℤ
  | expire | expireat => 1000
  | pexpire | pexpireat => 1

/-- What the product is added to. -/
def base (now : ℤ) : DeadlineCommand → ℤ
  | expire | pexpire => now
  | expireat | pexpireat => 0

variable {S : Type} [Platform]

/-- The handler. -/
def handler : DeadlineCommand → RedisDb.DatabaseCommand S
  | expire => expireCommand
  | pexpire => pexpireCommand
  | expireat => expireatCommand
  | pexpireat => pexpireatCommand

/-- The deadline that is stored. -/
def stored (c : DeadlineCommand) (now n : ℤ) : ℤ :=
  match c with
  | expire => asInt64 (now + asInt64 (n * 1000))
  | pexpire => asInt64 (now + n)
  | expireat => asInt64 (n * 1000)
  | pexpireat => n

/-- What a call is for. One that ends in an error, or in an exception, which becomes an error reply,
changes nothing; any other gives a key that is there the exact deadline, and no product and no sum leaves
the range of an `int64_t`. -/
structure Exact (c : DeadlineCommand) (args : List RespValue) (s : DbState S) : Prop where
  refused : (c.handler args).Post s fun r t =>
    (∀ reply, r = .ok reply → IsError reply) → t = s
  accepted : ∀ key n, ArgString args 1 key → ArgNumber args 2 n → key ∈ s.db.data →
    ∃ reply t, (c.handler args).run s = some (.ok reply, t) ∧ ¬ IsError reply ∧
      t.db.expires.lookup key = some (c.base (s.clock 0) + n * c.unit) ∧
      InRange 64 (n * c.unit) ∧ InRange 64 (c.base (s.clock 0) + n * c.unit)

/-- A call on a key that is there. -/
theorem run_present (c : DeadlineCommand) {args : List RespValue} {s : DbState S} {key : Bytes} {n : ℤ}
    (hkey : ArgString args 1 key) (hn : ArgNumber args 2 n) (hmem : key ∈ s.db.data) :
    ∃ t, (c.handler args).run s = some (.ok (integer 1), t) ∧
      t.db.expires.lookup key = some (c.stored (s.clock 0) n) := by
  have hpresent : ¬ (s.db.data.lookup key).isNone = true := by
    obtain ⟨obj, hobj⟩ := DbState.mem_iff_lookup.mp hmem
    rw [hobj]
    exact Bool.false_ne_true
  have hrun (method : Bytes → ℤ → DbM S Bool) {t : DbState S}
      (hmethod : (method key n).run s = some (.ok true, t)) :
      (deadlineCommand method args).run s = some (.ok (integer 1), t) := by
    rw [deadlineCommand, Program.run_bind_ok (argConverted_run hn s)]
    simp only
    rw [Program.run_bind_ok (argString_run hkey s), Program.run_bind_ok hmethod]
    rfl
  -- the relative commands read the clock once, and the others do not
  have hrelative (ms : ℤ) : (DbM.setExpiry key ms : DbM S Bool).run s
      = some (.ok true, { s with clock := fun k => s.clock (k + 1) }.setDeadline key
        (asInt64 (s.clock 0 + ms))) := by
    rw [DbM.setExpiry, DbM.run_call, DbState.setExpiry, if_neg hpresent]
    rfl
  have habsolute (ms : ℤ) : (DbM.setExpiryAt key ms : DbM S Bool).run s
      = some (.ok true, s.setDeadline key ms) := by
    rw [DbM.setExpiryAt, DbM.run_call, DbState.setExpiryAt, if_neg hpresent]
  cases c with
  | expire => exact ⟨_, hrun _ (hrelative _), AList.lookup_insert _⟩
  | pexpire => exact ⟨_, hrun _ (hrelative _), AList.lookup_insert _⟩
  | expireat => exact ⟨_, hrun _ (habsolute _), AList.lookup_insert _⟩
  | pexpireat => exact ⟨_, hrun _ (habsolute _), AList.lookup_insert _⟩

/-- A call that fails changes nothing. -/
theorem refused_unchanged (c : DeadlineCommand) (args : List RespValue) (s : DbState S) :
    (c.handler args).Post s fun r t => (∀ reply, r = .ok reply → IsError reply) → t = s := by
  have hcommand (method : Bytes → ℤ → DbM S Bool)
      (hmethod : ∀ key n s, (method key n).Returns s fun _ _ => True) :
      (deadlineCommand method args).Post s fun r t =>
        (∀ reply, r = .ok reply → IsError reply) → t = s := by
    rw [deadlineCommand, Program.post_bind]
    refine (post_argConverted args 2 s).mono ?_
    rintro _ t ⟨rfl, n, rfl, -⟩
    -- no number: the command has not looked at the database yet
    cases n with
    | none => exact (Program.post_pure _ _ _).mpr fun _ => rfl
    | some n =>
      simp only
      rw [Program.post_bind]
      refine (post_argString args 1 t).mono ?_
      rintro (e | key) u ⟨rfl, -⟩
      · exact fun _ => rfl
      · simp only
        rw [Program.post_bind]
        intro r v hrun
        obtain ⟨b, rfl, -⟩ := hmethod key n u r v hrun
        -- once the method has returned, the reply is a number
        refine (Program.post_pure _ _ _).mpr fun h => ?_
        exact absurd (h _ rfl) (not_isError_integer _)
  -- each of the four methods returns
  have hcall {f : DbState S → Bool × DbState S} {h : ∀ s, DbState.Call s (f s).2} (s : DbState S) :
      (DbM.call f h).Returns s fun _ _ => True := by
    intro r t hrun
    obtain ⟨rfl, rfl⟩ := Prod.mk.inj (Option.some.inj hrun)
    exact ⟨_, rfl, trivial⟩
  cases c with
  | expire => exact hcommand _ fun _ _ => hcall
  | pexpire => exact hcommand _ fun _ _ => hcall
  | expireat => exact hcommand _ fun _ _ => hcall
  | pexpireat => exact hcommand _ fun _ _ => hcall

omit [Platform] in
/-- What is stored is exact where product and sum fit. -/
theorem stored_eq (c : DeadlineCommand) {now n : ℤ} (hproduct : InRange 64 (n * c.unit))
    (hsum : InRange 64 (c.base now + n * c.unit)) : c.stored now n = c.base now + n * c.unit := by
  -- two of the commands convert seconds, and two add the clock
  cases c with
  | expire =>
    show asInt64 (now + asInt64 (n * 1000)) = now + n * 1000
    rw [asInt64_of_inRange (i := n * 1000) hproduct]
    exact asInt64_of_inRange hsum
  | pexpire =>
    show asInt64 (now + n) = now + n * 1
    rw [mul_one]
    exact asInt64_of_inRange (by rwa [unit, mul_one] at hsum)
  | expireat =>
    show asInt64 (n * 1000) = 0 + n * 1000
    rw [zero_add]
    exact asInt64_of_inRange hproduct
  | pexpireat =>
    show n = 0 + n * 1
    rw [zero_add, mul_one]

/-- Product and sum fit, for a key that is there. -/
def Fits (c : DeadlineCommand) (args : List RespValue) (s : DbState S) : Prop :=
  ∀ key n, ArgString args 1 key → ArgNumber args 2 n → key ∈ s.db.data →
    InRange 64 (n * c.unit) ∧ InRange 64 (c.base (s.clock 0) + n * c.unit)

/-- **A call is exact** if and only if product and sum fit. -/
theorem exact_iff (c : DeadlineCommand) (args : List RespValue) (s : DbState S) :
    c.Exact args s ↔ c.Fits args s := by
  constructor
  · intro h key n hkey hn hmem
    obtain ⟨-, -, -, -, -, hproduct, hsum⟩ := h.accepted key n hkey hn hmem
    exact ⟨hproduct, hsum⟩
  · intro h
    refine ⟨c.refused_unchanged args s, fun key n hkey hn hmem => ?_⟩
    obtain ⟨hproduct, hsum⟩ := h key n hkey hn hmem
    obtain ⟨t, hrun, hdeadline⟩ := c.run_present hkey hn hmem
    exact ⟨_, t, hrun, not_isError_integer 1, hdeadline.trans (congrArg some (c.stored_eq hproduct hsum)),
      hproduct, hsum⟩

end DeadlineCommand

/-! ### The options of `SET` -/

/-- An option of `SET`, with the number behind it and the milliseconds that one stands for. -/
inductive SetOption where
  | nx
  | xx
  | expire (unit n : ℤ)

/-- The options that the arguments behind key and value spell; any other flag is passed over. There are
none when an argument is no string where one is read, or a number is missing behind `EX` or `PX`. -/
def readOptions : List RespValue → Option (List SetOption)
  | [] => some []
  | [arg] =>
    match arg.asString with
    | .error _ => none
    | .ok flag =>
      if toUpper flag = str "NX" then some [.nx]
      else if toUpper flag = str "XX" then some [.xx]
      else some []
  | arg :: value :: rest =>
    match arg.asString with
    | .error _ => none
    | .ok flag =>
      if toUpper flag = str "NX" then (readOptions (value :: rest)).map (.nx :: ·)
      else if toUpper flag = str "XX" then (readOptions (value :: rest)).map (.xx :: ·)
      else if toUpper flag = str "EX" then
        (converted stoll value).bind fun n => (readOptions rest).map (.expire 1000 n :: ·)
      else if toUpper flag = str "PX" then
        (converted stoll value).bind fun n => (readOptions rest).map (.expire 1 n :: ·)
      else readOptions (value :: rest)

namespace SetOption

/-- `SET` turns the option away: the product, as an `int64_t`, is not positive. -/
def Refused : SetOption → Prop
  | expire unit n => asInt64 (n * unit) ≤ 0
  | _ => False

/-- The option, taken over. -/
def apply (o : SetOptions) : SetOption → SetOptions
  | nx => { o with nx := true }
  | xx => { o with xx := true }
  | expire unit n => { o with expiryMs := asInt64 (n * unit) }

/-- Unit and number of the last option that sets a deadline. -/
def lastExpire : List SetOption → Option (ℤ × ℤ)
  | [] => none
  | expire unit n :: opts => some ((lastExpire opts).getD (unit, n))
  | _ :: opts => lastExpire opts

/-- The last deadline is one of the options. -/
theorem mem_of_lastExpire {opts : List SetOption} : ∀ {unit n : ℤ},
    lastExpire opts = some (unit, n) → .expire unit n ∈ opts := by
  induction opts with
  | nil => exact nofun
  | cons x opts ih =>
    intro unit n h
    cases x with
    | nx => exact List.mem_cons_of_mem _ (ih h)
    | xx => exact List.mem_cons_of_mem _ (ih h)
    | expire unit' n' =>
      rw [lastExpire] at h
      -- a later option replaces this one
      cases hlast : lastExpire opts with
      | none =>
        rw [hlast] at h
        obtain ⟨rfl, rfl⟩ := Prod.mk.inj (Option.some.inj h)
        exact List.mem_cons_self
      | some last =>
        rw [hlast] at h
        exact List.mem_cons_of_mem _ (ih (hlast.trans h))

/-- What the options come to. By induction on the options. -/
theorem foldl_apply (opts : List SetOption) : ∀ o : SetOptions,
    ((opts.foldl apply o).nx = true ↔ o.nx = true ∨ .nx ∈ opts) ∧
    ((opts.foldl apply o).xx = true ↔ o.xx = true ∨ .xx ∈ opts) ∧
    (opts.foldl apply o).expiryMs
      = ((lastExpire opts).map fun x => asInt64 (x.2 * x.1)).getD o.expiryMs := by
  induction opts with
  | nil => simp [lastExpire]
  | cons x opts ih =>
    intro o
    obtain ⟨hnx, hxx, hms⟩ := ih (apply o x)
    rw [List.foldl_cons, hnx, hxx, hms]
    cases x with
    | nx => simp [apply, lastExpire]
    | xx => simp [apply, lastExpire]
    | expire unit n => cases hlast : lastExpire opts <;> simp [apply, lastExpire, hlast]

end SetOption

/-- How the option loop can end: it has read options of which none is refused, or it has ended the
command. -/
def OptionsOutcome (opts : Option (List SetOption)) (o : SetOptions)
    (r : Except Exn (Except Bytes SetOptions)) : Prop :=
  (∃ opts', opts = some opts' ∧ (∀ x ∈ opts', ¬ x.Refused) ∧
    r = .ok (.ok (opts'.foldl SetOption.apply o))) ∨
  (∀ opts', opts = some opts' → ∃ x ∈ opts', x.Refused) ∧ ∀ o', r ≠ .ok (.ok o') ∧
    ∀ reply, r = .ok (.error reply) → IsError reply

namespace OptionsOutcome

variable {opts : Option (List SetOption)} {o : SetOptions} {r : Except Exn (Except Bytes SetOptions)}

/-- One more option in front, which is not refused. -/
theorem cons {x : SetOption} (hx : ¬ x.Refused) (h : OptionsOutcome opts (x.apply o) r) :
    OptionsOutcome (opts.map (x :: ·)) o r := by
  rcases h with ⟨opts', rfl, hnone, rfl⟩ | ⟨hsome, hr⟩
  · exact .inl ⟨_, rfl, List.forall_mem_cons.mpr ⟨hx, hnone⟩, rfl⟩
  · refine .inr ⟨fun opts'' h => ?_, hr⟩
    obtain ⟨opts', hopts, rfl⟩ := Option.map_eq_some_iff.mp h
    obtain ⟨y, hy, hrefused⟩ := hsome opts' hopts
    exact ⟨y, List.mem_cons_of_mem x hy, hrefused⟩

/-- The loop ends the command with an error reply. -/
theorem refused {reply : Bytes} (hreply : IsError reply)
    (h : ∀ opts', opts = some opts' → ∃ x ∈ opts', x.Refused) :
    OptionsOutcome opts o (.ok (.error reply)) := by
  refine .inr ⟨h, fun o' => ⟨nofun, ?_⟩⟩
  rintro _ ⟨⟩
  exact hreply

/-- An argument is no string. -/
theorem thrown {e : Exn} : OptionsOutcome none o (.error e) := .inr ⟨nofun, fun _ => ⟨nofun, nofun⟩⟩

end OptionsOutcome

section Set

variable {S : Type} [Platform]

/-- `EX` or `PX`, with the argument behind it and what follows. -/
theorem setExpiryOption_outcome {o : SetOptions} {unit : ℤ} {value : RespValue}
    {opts : Option (List SetOption)} {s : DbState S} {next : SetOptions → DbM S (Except Bytes SetOptions)}
    (hnext : ∀ o, ∃ r, (next o).run s = some (r, s) ∧ OptionsOutcome opts o r) :
    ∃ r, (match setExpiryOption o unit value with
        | .error reply => return .error reply
        | .ok o => next o : DbM S (Except Bytes SetOptions)).run s = some (r, s) ∧
      OptionsOutcome ((converted stoll value).bind fun n => opts.map (.expire unit n :: ·)) o r := by
  unfold setExpiryOption
  cases converted stoll value with
  | none => exact ⟨_, rfl, .refused rfl nofun⟩
  | some n =>
    rw [Option.bind_some]
    -- the product, as it has come out in an `int64_t`, is to be positive
    by_cases hle : asInt64 (n * unit) ≤ 0
    · simp only [hle, if_true]
      refine ⟨_, rfl, .refused rfl fun opts'' h => ?_⟩
      obtain ⟨opts', -, rfl⟩ := Option.map_eq_some_iff.mp h
      exact ⟨_, List.mem_cons_self, hle⟩
    · simp only [hle, if_false]
      obtain ⟨r, hrun, hr⟩ := hnext { o with expiryMs := asInt64 (n * unit) }
      exact ⟨r, hrun, .cons (x := .expire unit n) hle hr⟩

/-- **The option loop** reads the options and leaves the database alone. -/
theorem setOptions_outcome : ∀ (args : List RespValue) (o : SetOptions) (s : DbState S),
    ∃ r, (setOptions o args).run s = some (r, s) ∧ OptionsOutcome (readOptions args) o r
  | [], o, s => ⟨_, rfl, .inl ⟨[], rfl, by simp, rfl⟩⟩
  | [arg], o, s => by
    rw [setOptions, readOptions]
    cases harg : arg.asString with
    | error e => exact ⟨_, rfl, .thrown⟩
    | ok flag =>
      -- `EX` and `PX` in the last place have no argument behind them, and are passed over
      have hlast {x : SetOption} (hx : ¬ x.Refused) :
          OptionsOutcome (some [x]) o (.ok (.ok (x.apply o))) := .inl ⟨[x], rfl, by simpa, rfl⟩
      rw [Program.run_bind]
      simp only [Program.ofExcept]
      split_ifs
      · exact ⟨_, rfl, hlast (x := .nx) id⟩
      · exact ⟨_, rfl, hlast (x := .xx) id⟩
      · exact ⟨_, rfl, .inl ⟨[], rfl, by simp, rfl⟩⟩
  -- an option, and what may be its argument
  | arg :: value :: rest, o, s => by
    rw [setOptions, readOptions]
    cases harg : arg.asString with
    | error e => exact ⟨_, rfl, .thrown⟩
    | ok flag =>
      rw [Program.run_bind]
      simp only [Program.ofExcept]
      split_ifs
      · obtain ⟨r, hrun, hr⟩ := setOptions_outcome (value :: rest) { o with nx := true } s
        exact ⟨r, hrun, .cons (x := .nx) id hr⟩
      · obtain ⟨r, hrun, hr⟩ := setOptions_outcome (value :: rest) { o with xx := true } s
        exact ⟨r, hrun, .cons (x := .xx) id hr⟩
      -- `EX` and `PX` take the argument behind them
      · exact setExpiryOption_outcome fun o => setOptions_outcome rest o s
      · exact setExpiryOption_outcome fun o => setOptions_outcome rest o s
      · exact setOptions_outcome (value :: rest) o s

/-! ### `SET` -/

/-- The key is there and has not expired. -/
def DbState.Live (s : DbState S) (key : Bytes) : Prop :=
  key ∈ s.db.data ∧ ¬ s.db.Expired (s.clock 0) key

/-- How often looking at a key reads the clock. -/
def DbState.looks (s : DbState S) (key : Bytes) : ℕ := if (s.db.expires.lookup key).isSome then 1 else 0

/-- Looking at a key reads the clock if the key has a deadline. -/
theorem DbState.checkAndExpire_clock (s : DbState S) (key : Bytes) :
    s.ReadsClock (s.looks key) (s.checkAndExpire key).2 := by
  -- the clock is read once if there is a deadline, and not otherwise
  have hone : (fun k => s.clock (k + 1)) = fun k => s.clock (1 + k) :=
    funext fun k => by rw [Nat.add_comm]
  unfold checkAndExpire isExpired ReadsClock looks
  cases hdeadline : s.db.expires.lookup key with
  | none =>
    rw [Option.isSome_none, if_neg Bool.false_ne_true]
    exact funext fun k => by rw [Nat.zero_add]; rfl
  | some deadline =>
    rw [Option.isSome_some, if_pos rfl]
    simp only [now]
    by_cases hpast : deadline ≤ s.clock 0
    · simp only [hpast, decide_true, if_true]
      cases s.db.data.lookup key with
      | none => exact hone
      | some obj => exact (touchWatchedKey_clock _ _).trans hone
    · simp only [hpast, decide_false, Bool.false_eq_true, if_false]
      exact hone

/-- **`exists`** tells whether the key is there and has not expired; where it is not, it is gone
afterwards. -/
theorem DbState.contains_spec (s : DbState S) (key : Bytes) :
    ((s.contains key).1 = true ↔ s.Live key) ∧ s.ReadsClock (s.looks key) (s.contains key).2 ∧
    ((s.contains key).1 = false → key ∉ (s.contains key).2.db.data) := by
  have hclock := s.checkAndExpire_clock key
  have hstate : (s.contains key).2 = (s.checkAndExpire key).2 := by
    unfold contains
    dsimp only
    split <;> rfl
  rw [hstate]
  -- the deadline has not passed, and the key is there or not; or it has, and the key goes
  rcases s.checkAndExpire_spec key with ⟨hlive, hno, hdb, -⟩ | ⟨d, hd, hpast, hyes, -, -, hdata⟩
  · have hcontains : (s.contains key).1 = (s.db.data.lookup key).isSome := by
      simp only [contains, hno, Bool.false_eq_true, if_false, hdb]
    rw [hcontains, hdb, mem_iff_lookup, ← Option.isSome_iff_exists]
    refine ⟨⟨fun h => ⟨mem_iff_lookup.mpr (Option.isSome_iff_exists.mp h), hlive⟩, fun h => ?_⟩,
      hclock, Bool.eq_false_iff.mp⟩
    exact Option.isSome_iff_exists.mpr (mem_iff_lookup.mp h.1)
  · have hcontains : (s.contains key).1 = false := by simp only [contains, hyes, if_true]
    rw [hcontains, mem_iff_lookup, hdata, if_pos rfl]
    exact ⟨⟨nofun, fun h => absurd ⟨d, hd, hpast⟩ h.2⟩, hclock, fun _ => nofun⟩

/-- The options let `SET` write. -/
def SetOptions.Writes (o : SetOptions) (key : Bytes) (s : DbState S) : Prop :=
  (o.nx = true → ¬ s.Live key) ∧ (o.xx = true → s.Live key)

/-- Which reading of the clock a deadline is added to. -/
def SetOptions.reading (o : SetOptions) (key : Bytes) (s : DbState S) : ℕ :=
  if o.nx = true ∨ o.xx = true then s.looks key else 0

/-- What `setWith` does once the options let it write. -/
def writeWith (key value : Bytes) (o : SetOptions) : DbM S (Bytes × Bool) := do
  DbM.set key value
  if 0 < o.expiryMs then
    let _ ← DbM.setExpiry key o.expiryMs
  return (ok, true)

/-- The two options look at the key one after the other, and then it is written. -/
theorem setWith_eq (key value : Bytes) (o : SetOptions) : (setWith key value o : DbM S (Bytes × Bool))
    = (if o.nx then DbM.contains key else pure false) >>= fun present =>
      if present then pure (nullBulkString, false)
      else (if o.xx then DbM.contains key else pure true) >>= fun present =>
        if !present then pure (nullBulkString, false) else writeWith key value o := by
  unfold setWith writeWith
  cases o.nx <;> cases o.xx <;> rfl

/-- Looking at a key always comes to an end. -/
theorem run_contains {s : DbState S} {key : Bytes} {b : Bool} (hb : (s.contains key).1 = b) :
    (DbM.contains key : DbM S Bool).run s = some (.ok b, (s.contains key).2) := by
  rw [← hb]
  rfl

/-- The key is written, and the deadline set from the next reading of the clock. -/
theorem writeWith_run {key value : Bytes} {o : SetOptions} {s u : DbState S} {n : ℕ}
    (hu : s.ReadsClock n u) :
    ∃ t, (writeWith key value o).run u = some (.ok (ok, true), t) ∧ (0 < o.expiryMs →
      s.ReadsClock (n + 1) t ∧
      t.db.expires.lookup key = some (asInt64 (s.clock n + o.expiryMs))) := by
  have hset : (DbM.set key value : DbM S Unit).run u = some (.ok (), u.set key value) := rfl
  rw [writeWith, Program.run_bind_ok hset]
  by_cases hms : 0 < o.expiryMs
  · obtain ⟨lruClock, hdata⟩ := u.store_data key { value := .string value }
    -- the key has just been set, so that its deadline is accepted
    have hpresent : ¬ ((u.set key value).db.data.lookup key).isNone = true := by
      show ¬ ((u.store key _).db.data.lookup key).isNone = true
      rw [hdata, UnorderedMap.lookup_insert_eq_ite, if_pos rfl]
      exact Bool.false_ne_true
    have hnow : (u.set key value).clock = fun k => s.clock (n + k) := (u.store_clock key _).trans hu
    simp only [if_pos hms]
    refine ⟨((u.set key value).setExpiry key o.expiryMs).2, rfl, fun _ => ?_⟩
    rw [DbState.setExpiry, if_neg hpresent]
    refine ⟨?_, ?_⟩
    · show (fun k => (u.set key value).clock (k + 1)) = _
      rw [hnow]
      exact funext fun k => by rw [Nat.add_assoc, Nat.add_comm k 1]
    · show ((u.set key value).db.expires.insert key
        (asInt64 ((u.set key value).clock 0 + o.expiryMs))).lookup key = _
      rw [hnow, AList.lookup_insert]
      rfl
  · simp only [if_neg hms]
    exact ⟨_, rfl, fun h => absurd h hms⟩

/-- `SET` writes where its options let it. How often the clock has been read by then depends on whether `NX` or `XX`
has the key looked at. -/
theorem setWith_writes {key : Bytes} (value : Bytes) {o : SetOptions} {s : DbState S} (h : o.Writes key s) :
    ∃ t, (setWith key value o).run s = some (.ok (ok, true), t) ∧ (0 < o.expiryMs →
      s.ReadsClock (o.reading key s + 1) t ∧
      t.db.expires.lookup key = some (asInt64 (s.clock (o.reading key s) + o.expiryMs))) := by
  obtain ⟨hlive, hclock, -⟩ := s.contains_spec key
  rw [setWith_eq]
  -- with `NX` the key is not live, with `XX` it is, so not both are given
  cases hnx : o.nx with
  | false =>
    rw [if_neg Bool.false_ne_true, Program.run_bind_ok (Program.run_pure false s),
      if_neg Bool.false_ne_true]
    cases hxx : o.xx with
    | false =>
      have hreading : o.reading key s = 0 := by rw [SetOptions.reading, hnx, hxx, if_neg (by simp)]
      rw [hreading]
      exact writeWith_run (DbState.readsClock_zero rfl)
    | true =>
      -- `XX` alone: one look at the key, which is live
      have hreading : o.reading key s = s.looks key := by
        rw [SetOptions.reading, hxx, if_pos (.inr rfl)]
      rw [hreading, if_pos rfl, Program.run_bind_ok (run_contains (hlive.mpr (h.2 hxx)))]
      exact writeWith_run hclock
  | true =>
    have hreading : o.reading key s = s.looks key := by
      rw [SetOptions.reading, hnx, if_pos (.inl rfl)]
    have hfalse : (s.contains key).1 = false :=
      Bool.eq_false_iff.mpr fun htrue => h.1 hnx (hlive.mp htrue)
    rw [hreading, if_pos rfl, Program.run_bind_ok (run_contains hfalse), if_neg Bool.false_ne_true]
    cases hxx : o.xx with
    | false => exact writeWith_run hclock
    | true => exact absurd (h.2 hxx) (h.1 hnx)

/-- Options that do not let `SET` write get the empty reply. -/
theorem setWith_declines {key : Bytes} (value : Bytes) {o : SetOptions} {s : DbState S}
    (h : ¬ o.Writes key s) : ∃ t, (setWith key value o).run s = some (.ok (nullBulkString, false), t) := by
  obtain ⟨hlive, -, hgone⟩ := s.contains_spec key
  rw [setWith_eq]
  cases hnx : o.nx with
  | false =>
    rw [if_neg Bool.false_ne_true, Program.run_bind_ok (Program.run_pure false s),
      if_neg Bool.false_ne_true]
    cases hxx : o.xx with
    | false => exact absurd ⟨fun h => absurd (hnx.symm.trans h) Bool.false_ne_true,
        fun h => absurd (hxx.symm.trans h) Bool.false_ne_true⟩ h
    | true =>
      -- `NX` is given: it declines a live key, and `XX` one that is not
      -- `XX` of a key that is not live
      have hdead : (s.contains key).1 = false := Bool.eq_false_iff.mpr fun htrue =>
        h ⟨fun h => absurd (hnx.symm.trans h) Bool.false_ne_true, fun _ => hlive.mp htrue⟩
      rw [if_pos rfl, Program.run_bind_ok (run_contains hdead)]
      exact ⟨_, rfl⟩
  | true =>
    rw [if_pos rfl]
    cases hpresent : (s.contains key).1 with
    | true =>
      rw [Program.run_bind_ok (run_contains hpresent)]
      exact ⟨_, rfl⟩
    | false =>
      rw [Program.run_bind_ok (run_contains hpresent), if_neg Bool.false_ne_true]
      cases hxx : o.xx with
      | false => exact absurd ⟨fun _ hl => Bool.false_ne_true (hpresent.symm.trans (hlive.mpr hl)),
          fun h => absurd (hxx.symm.trans h) Bool.false_ne_true⟩ h
      | true =>
        -- the key is still not there when it is looked at again
        have hagain : ((s.contains key).2.contains key).1 = false :=
          Bool.eq_false_iff.mpr fun htrue =>
            hgone hpresent (((s.contains key).2.contains_spec key).1.mp htrue).1
        rw [if_pos rfl, Program.run_bind_ok (run_contains hagain)]
        exact ⟨_, rfl⟩

/-- The reading of the clock that the deadline of `SET` is added to. -/
def setReading (opts : List SetOption) (key : Bytes) (s : DbState S) : ℤ :=
  s.clock ((opts.foldl SetOption.apply {}).reading key s)

/-- What `SET` is for, as far as deadlines go. A call that ends in an error, or in an exception, which
becomes an error reply, changes nothing. After one that writes, no product of its options has left the
range of an `int64_t`, and neither has the sum; the deadline is the last reading of the clock and the
product of the last option. -/
structure SetExact (args : List RespValue) (s : DbState S) : Prop where
  refused : (setCommand args).Post s fun r t => (∀ x, r = .ok x → IsError x.1) → t = s
  accepted : (setCommand args).Post s fun r t => r = .ok (ok, true) → ∃ key opts,
    ArgString args 1 key ∧ readOptions (args.drop 3) = some opts ∧
    (∀ unit n, .expire unit n ∈ opts → InRange 64 (n * unit)) ∧
    ∀ unit n, SetOption.lastExpire opts = some (unit, n) →
      s.ReadsClock ((opts.foldl SetOption.apply {}).reading key s + 1) t ∧
      t.db.expires.lookup key = some (setReading opts key s + n * unit) ∧
      InRange 64 (setReading opts key s + n * unit)

/-- Products and sum fit, where `SET` refuses no option and writes. -/
def SetFits (args : List RespValue) (s : DbState S) : Prop :=
  ∀ key value opts, ArgString args 1 key → ArgString args 2 value →
    readOptions (args.drop 3) = some opts → (∀ x ∈ opts, ¬ x.Refused) →
    (opts.foldl SetOption.apply {}).Writes key s →
    (∀ unit n, .expire unit n ∈ opts → InRange 64 (n * unit)) ∧
    ∀ unit n, SetOption.lastExpire opts = some (unit, n) → InRange 64 (setReading opts key s + n * unit)

/-- A call whose arguments can be read, and whose options are not refused, goes on to write. -/
theorem setCommand_run {args : List RespValue} {s : DbState S} {key value : Bytes}
    {opts : List SetOption} (hkey : ArgString args 1 key) (hvalue : ArgString args 2 value)
    (hopts : readOptions (args.drop 3) = some opts) (hnone : ∀ x ∈ opts, ¬ x.Refused) :
    (setCommand args).run s = (setWith key value (opts.foldl SetOption.apply {})).run s := by
  obtain ⟨r, hrun, hr⟩ := setOptions_outcome (args.drop 3) {} s
  -- the loop has read the options, or refused one of them
  rcases hr with ⟨opts', hopts', -, rfl⟩ | ⟨hrefused, -⟩
  · obtain rfl : opts = opts' := Option.some.inj (hopts.symm.trans hopts')
    rw [setCommand, Program.run_bind_ok (argString_run hkey s),
      Program.run_bind_ok (argString_run hvalue s), Program.run_bind_ok hrun]
  · obtain ⟨x, hx, h⟩ := hrefused opts hopts
    exact absurd h (hnone x hx)

/-- Where a call ends: with an error before anything is written, or as `setWith` ends. -/
theorem post_setCommand (args : List RespValue) (s : DbState S) :
    (setCommand args).Post s fun r t => (t = s ∧ ∀ x, r = .ok x → IsError x.1) ∨
      ∃ key value opts, ArgString args 1 key ∧ ArgString args 2 value ∧
        readOptions (args.drop 3) = some opts ∧ (∀ x ∈ opts, ¬ x.Refused) ∧
        (setWith key value (opts.foldl SetOption.apply {})).run s = some (r, t) := by
  rw [setCommand, Program.post_bind]
  refine (post_argString args 1 s).mono ?_
  rintro (e | key) u ⟨rfl, hkey⟩
  · exact .inl ⟨rfl, nofun⟩
  simp only
  rw [Program.post_bind]
  refine (post_argString args 2 u).mono ?_
  rintro (e | value) v ⟨rfl, hvalue⟩
  · exact .inl ⟨rfl, nofun⟩
  simp only
  rw [Program.post_bind]
  -- the options are read to the end, or a reply or an exception comes first
  obtain ⟨r, hrun, hr⟩ := setOptions_outcome (args.drop 3) {} v
  intro r' w hrun'
  obtain ⟨rfl, rfl⟩ := Prod.mk.inj (Option.some.inj (hrun.symm.trans hrun'))
  rcases hr with ⟨opts, hopts, hnone, rfl⟩ | ⟨-, hno⟩
  · exact fun r t hrun => .inr ⟨key, value, opts, hkey _ rfl, hvalue _ rfl, hopts, hnone, hrun⟩
  · rcases r with e | reply | o
    · exact .inl ⟨rfl, nofun⟩
    · refine (Program.post_pure _ _ _).mpr (.inl ⟨rfl, ?_⟩)
      rintro _ ⟨⟩
      exact (hno {}).2 reply rfl
    · exact absurd rfl (hno o).1

/-- **`SET` is exact** if and only if products and sum fit. For one direction a call that is accepted is looked at,
with the options it has; for the other, each outcome that a call can have. -/
theorem setExact_iff (args : List RespValue) (s : DbState S) : SetExact args s ↔ SetFits args s := by
  constructor
  · -- the options are read and the value is written, so the command is accepted
    intro h key value opts hkey hvalue hopts hnone hwrites
    obtain ⟨t, hrun, -⟩ := setWith_writes value hwrites
    obtain ⟨key', opts', hkey', hopts', hproducts, hlast⟩ :=
      h.accepted _ t ((setCommand_run hkey hvalue hopts hnone).trans hrun) rfl
    obtain rfl := hkey.unique hkey'
    obtain rfl : opts = opts' := Option.some.inj (hopts.symm.trans hopts')
    exact ⟨hproducts, fun unit n hn => (hlast unit n hn).2.2⟩
  · -- what is to be shown of each outcome of the command
    intro h
    refine ⟨(post_setCommand args s).mono ?_, (post_setCommand args s).mono ?_⟩
    · rintro r t (⟨rfl, -⟩ | ⟨key, value, opts, -, -, -, -, hrun⟩) herror
      · rfl
      · -- once the options have been read, no reply is an error
        by_cases hwrites : (opts.foldl SetOption.apply {}).Writes key s
        · obtain ⟨u, hrun', -⟩ := setWith_writes value hwrites
          obtain ⟨rfl, -⟩ := Prod.mk.inj (Option.some.inj (hrun.symm.trans hrun'))
          exact absurd (herror _ rfl) (by simp [IsError, ok, str])
        · obtain ⟨u, hrun'⟩ := setWith_declines value hwrites
          obtain ⟨rfl, -⟩ := Prod.mk.inj (Option.some.inj (hrun.symm.trans hrun'))
          exact absurd (herror _ rfl) (by simp [IsError, nullBulkString, str])
    · rintro r t (⟨-, herror⟩ | ⟨key, value, opts, hkey, hvalue, hopts, hnone, hrun⟩) rfl
      · exact absurd (herror _ rfl) (by simp [IsError, ok, str])
      · have hwrites : (opts.foldl SetOption.apply {}).Writes key s := by
          by_contra hwrites
          obtain ⟨u, hrun'⟩ := setWith_declines value hwrites
          have heq := congrArg Prod.fst (Option.some.inj (hrun.symm.trans hrun'))
          exact Bool.false_ne_true (congrArg Prod.snd (Except.ok.inj heq)).symm
        obtain ⟨hproducts, hsum⟩ := h key value opts hkey hvalue hopts hnone hwrites
        refine ⟨key, opts, hkey, hopts, hproducts, fun unit n hn => ?_⟩
        obtain ⟨u, hrun', hdeadline⟩ := setWith_writes value hwrites
        obtain ⟨-, rfl⟩ := Prod.mk.inj (Option.some.inj (hrun.symm.trans hrun'))
        have hmem := SetOption.mem_of_lastExpire hn
        -- the product is what it should be, so the sum is
        have hms : (opts.foldl SetOption.apply {}).expiryMs = n * unit := by
          rw [(SetOption.foldl_apply opts {}).2.2, hn]
          exact asInt64_of_inRange (hproducts unit n hmem)
        have hpositive : 0 < n * unit := by
          have h := hnone _ hmem
          rw [SetOption.Refused, asInt64_of_inRange (hproducts unit n hmem)] at h
          exact not_le.mp h
        obtain ⟨hclock, hlookup⟩ := hdeadline (hms ▸ hpositive)
        rw [hms] at hlookup
        exact ⟨hclock, hlookup.trans (congrArg some (asInt64_of_inRange (hsum unit n hn))),
          hsum unit n hn⟩

/-- **Deadlines are exact or refused** by each of the commands if and only if products and sums fit where the command
sets one. `SET` reads its deadline among other options, in any order; the four commands with one argument share their
proof, and differ in the unit and in what it is counted from. -/
theorem deadlines_exact_iff (args : List RespValue) (s : DbState S) :
    (SetExact args s ↔ SetFits args s) ∧ ∀ c : DeadlineCommand, c.Exact args s ↔ c.Fits args s :=
  ⟨setExact_iff args s, fun c => c.exact_iff args s⟩

end Set

section Sample

open Sample

/-- The string `v` under the key `k`, a millisecond after the epoch. -/
def presentKey : DbState Score :=
  DbState.set (str "k") (str "v") { idleEnv with clock := fun _ => 1, db := {} }

/-- `EXPIRE k 9223372036854775807`. -/
def expireArgs : List RespValue :=
  [.bulkString (str "EXPIRE"), .bulkString (str "k"), .bulkString (str "9223372036854775807")]

/-- `SET k v PX 9223372036854775807`. -/
def setArgs : List RespValue :=
  [.bulkString (str "SET"), .bulkString (str "k"), .bulkString (str "v"), .bulkString (str "PX"),
    .bulkString (str "9223372036854775807")]

/-- A lifetime of the greatest number of seconds, or of milliseconds, ends in the past: the product, and
the sum, has wrapped. -/
theorem deadline_wraps :
    (∃ t, (expireCommand expireArgs).run presentKey = some (.ok (integer 1), t) ∧
      t.db.expires.lookup (str "k") = some (-999)) ∧
    ¬ DeadlineCommand.expire.Exact expireArgs presentKey ∧
    (∃ t, (setCommand setArgs).run presentKey = some (.ok (ok, true), t) ∧
      t.db.expires.lookup (str "k") = some (-2 ^ 63)) ∧ ¬ SetExact setArgs presentKey := by
  have hmem : str "k" ∈ presentKey.db.data := by decide
  refine ⟨⟨_, rfl, by decide⟩, fun h => ?_, ⟨_, rfl, by decide⟩, fun h => ?_⟩
  · obtain ⟨-, -, -, -, -, hproduct, -⟩ := h.accepted (str "k") (2 ^ 63 - 1) ⟨_, rfl, rfl⟩
      ⟨_, rfl, by decide⟩ hmem
    exact absurd hproduct (by decide)
  · obtain ⟨key, opts, hkey, hopts, -, hlast⟩ := h.accepted _ _ rfl rfl
    obtain rfl : str "k" = key := ArgString.unique ⟨_, rfl, rfl⟩ hkey
    have hread : readOptions (setArgs.drop 3) = some [.expire 1 (2 ^ 63 - 1)] := by rfl
    obtain rfl := Option.some.inj (hread.symm.trans hopts)
    exact absurd (hlast 1 (2 ^ 63 - 1) rfl).2.2 (by decide)

end Sample

end RedisDb
