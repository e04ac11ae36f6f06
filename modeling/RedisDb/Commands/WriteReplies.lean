import RedisDb.Commands.CommandRegistry
import RedisDb.Protocol.ParserStable

/-!
# What the write commands reply

A write command that does not block replies with a status, an error, a number or a string. None of these is an array
(`Scalar`), so whoever reads such a reply reads no command (`RespParser.ne_array_of_scalar`). This is what keeps the
replies that a replica sends back on its link from being executed by the primary.

For each handler there is a lemma `yields_…` that its replies are scalars. It is read off the text of the handler by
the rules of `Program.Yields`, one for each construct, and needs no invariant of the database: where a handler ends
depends on what it finds, what kind of reply it ends with does not.

Their handlers are of four kinds (`Command.writes_induct`): most work on a database and reply, `SET` and `ZADD` do a
little more, and the pushes may wake a client. What is to be shown of all of them is shown of the four.
-/

namespace RedisDb

open RespSerializer

/-- The text of a value that is no array, by its first byte. -/
def Scalar (data : Bytes) : Prop :=
  ∃ b, data.head? = some b ∧ (b = 43 ∨ b = 45 ∨ b = 58 ∨ b = 36)

/-- A number starts with a colon. -/
theorem scalar_integer (n : ℤ) : Scalar (integer n) := ⟨58, rfl, by simp⟩

/-- A string starts with a dollar sign. -/
theorem scalar_bulkString (s : Bytes) : Scalar (bulkString s) := ⟨36, rfl, by simp⟩

/-- A status starts with a plus sign. -/
theorem scalar_simpleString (s : Bytes) : Scalar (simpleString s) := ⟨43, rfl, by simp⟩

/-- An error starts with a minus sign. -/
theorem scalar_error (msg : Bytes) : Scalar (error msg) := ⟨45, rfl, by simp⟩

/-- `OK` is a status. -/
theorem scalar_ok : Scalar ok := ⟨43, rfl, by simp⟩

/-- The wrong type is an error. -/
theorem scalar_wrongType : Scalar wrongType := ⟨45, rfl, by simp⟩

/-- The string that is not there is a string. -/
theorem scalar_nullBulkString : Scalar nullBulkString := ⟨36, rfl, by simp⟩

/-- **Such a text is not read as an array.** -/
theorem RespParser.ne_array_of_scalar {reserve : Reserve} {data : Bytes} {v : RespValue} {n : ℕ}
    (hdata : Scalar data) (h : parseCommand reserve data 0 = .ok (some v, n))
    (elements : List RespValue) : v ≠ .array elements := by
  rintro rfl
  obtain ⟨b, hb, hkind⟩ := hdata
  rw [List.head?_eq_getElem?] at hb
  have hvalue : parseCommand reserve data 0 = parseByType reserve (parseValue reserve) data 0 := by
    rw [parseCommand, hb, ← parseValue_eq]
    exact if_pos (.inr hkind)
  rw [hvalue, parseByType, hb] at h
  -- each of the four parsers ends with a value of its own kind
  rcases hkind with rfl | rfl | rfl | rfl <;> replace h := Except.ok.inj h
  · unfold parseSimpleString at h
    split at h <;> cases h
  · unfold parseError at h
    split at h <;> cases h
  · unfold parseInteger at h
    split at h
    · cases h
    · split at h <;> cases h
  · unfold parseBulkString at h
    split at h
    · cases h
    · split at h
      · cases h
      · split_ifs at h <;> cases h

variable {S : Type} [Platform]

/-! ### Lists, hashes and sets -/

/-- `LPUSH` and `RPUSH` reply with a number, before they say whom they wake. -/
theorem yields_pushElements (args : List RespValue) (left : Bool) :
    (pushElements args left : DbM S _).Yields fun x => Scalar x.1 := by
  refine .bind fun key => .bind fun obj => ?_
  split
  · exact .bind fun list => .pure (scalar_integer _)
  · exact .pure scalar_wrongType

/-- `LPOP` and `RPOP` reply with an element or with none. -/
theorem yields_popGeneric (args : List RespValue) (left : Bool) :
    (popGeneric args left : DbM S _).Yields Scalar := by
  refine .bind fun key => .bind fun obj => ?_
  split
  · exact .pure scalar_nullBulkString
  · split
    · split
      · refine .bind fun _ => ?_
        split
        · exact .bind fun _ => .pure (scalar_bulkString _)
        · exact .pure (scalar_bulkString _)
      · exact .pure scalar_nullBulkString
    · exact .pure scalar_wrongType

/-- `HSET` replies with a number. -/
theorem yields_hsetCommand (args : List RespValue) : (hsetCommand args : DbM S _).Yields Scalar := by
  refine .ite (.pure (scalar_error _)) (.bind fun key => .bind fun obj => ?_)
  split
  · exact .bind fun added => .pure (scalar_integer _)
  · exact .pure scalar_wrongType

/-- `SADD` replies with a number. -/
theorem yields_saddCommand (args : List RespValue) : (saddCommand args : DbM S _).Yields Scalar := by
  refine .bind fun key => .bind fun obj => ?_
  split
  · exact .bind fun x => .pure (scalar_integer _)
  · exact .pure scalar_wrongType

/-- `SREM` replies with a number. -/
theorem yields_sremCommand (args : List RespValue) : (sremCommand args : DbM S _).Yields Scalar := by
  refine .bind fun key => .bind fun obj => ?_
  split
  · exact .pure (scalar_integer _)
  · split
    · refine .bind fun x => ?_
      dsimp only
      split
      · exact .bind fun _ => .pure (scalar_integer _)
      · exact .pure (scalar_integer _)
    · exact .pure scalar_wrongType

/-! ### Strings and keys -/

/-- `DEL` replies with a number. -/
theorem yields_countArgs (method : Bytes → DbM S Bool) (args : List RespValue) :
    (countArgs method args).Yields Scalar :=
  .bind fun _ => .pure (scalar_integer _)

/-- The options of `SET` are read, or one of them is refused with an error. By induction on the arguments, two at a
time, since an option may have a value. -/
theorem yields_setOptions (args : List RespValue) : ∀ o, (setOptions o args : DbM S _).Yields
    fun x => ∀ reply, x = .error reply → Scalar reply := by
  have hok (o : SetOptions) : (pure (.ok o) : DbM S (Except Bytes SetOptions)).Yields
      fun x => ∀ reply, x = .error reply → Scalar reply := .pure fun _ h => nomatch h
  -- an option with a value that is refused ends in an error
  have hrefused {o : SetOptions} {scale : ℤ} {value : RespValue} {reply : Bytes}
      (h : setExpiryOption o scale value = .error reply) : Scalar reply := by
    unfold setExpiryOption at h
    split at h
    · exact Except.error.inj h ▸ scalar_error _
    · split at h
      · exact Except.error.inj h ▸ scalar_error _
      · cases h
  induction args using List.twoStepInduction with
  | nil => exact hok
  | singleton arg => exact fun o => .bind fun _ => .ite (hok _) (.ite (hok _) (hok _))
  | cons_cons arg value rest ih ih' =>
    intro o
    refine .bind fun flag => .ite (ih' _ _) (.ite (ih' _ _) (.ite ?_ (.ite ?_ (ih' _ _))))
    all_goals
      split
      · next reply hreply => exact .pure fun reply' h => Except.error.inj h ▸ hrefused hreply
      · exact ih _

/-- What `SET` does with its options, for `NX` and `XX` as well. -/
theorem yields_setWith (key value : Bytes) (o : SetOptions) :
    (setWith key value o : DbM S _).Yields fun x => Scalar x.1 := by
  have hstore : (do
      DbM.set key value
      if 0 < o.expiryMs then
        let _ ← DbM.setExpiry key o.expiryMs
      return (ok, true) : DbM S _).Yields fun x => Scalar x.1 := by
    refine .bind fun _ => ?_
    split
    · exact .bind fun _ => .pure scalar_ok
    · exact .pure scalar_ok
  -- what follows the look at the key for `XX`, and that for `NX`
  have hxx (present : Bool) : (if !present then return (nullBulkString, false) else do
      DbM.set key value
      if 0 < o.expiryMs then
        let _ ← DbM.setExpiry key o.expiryMs
      return (ok, true) : DbM S _).Yields fun x => Scalar x.1 :=
    .ite (.pure scalar_nullBulkString) hstore
  have hnull : (pure (nullBulkString, false) : DbM S _).Yields fun x => Scalar x.1 :=
    .pure scalar_nullBulkString
  have hnx (present : Bool) := Program.Yields.ite (c := present = true) hnull
    (Program.Yields.ite (c := o.xx = true) (.bind (p := DbM.contains key) hxx)
      (.bind (p := pure true) hxx))
  exact .ite (.bind (p := DbM.contains key) hnx) (.bind (p := pure false) hnx)

/-- `SET` replies with `OK`, with nothing or with an error. -/
theorem yields_setCommand (args : List RespValue) :
    (setCommand args : DbM S _).Yields fun x => Scalar x.1 := by
  refine .bind fun key => .bind fun value => .bind_of (yields_setOptions _ _) fun o ho => ?_
  cases o with
  | error reply => exact .pure (ho reply rfl)
  | ok o => exact yields_setWith key value o

/-- `MSET` replies with `OK`. -/
theorem yields_msetCommand (args : List RespValue) : (msetCommand args : DbM S _).Yields Scalar :=
  .ite (.pure (scalar_error _)) (.bind fun _ => .pure scalar_ok)

omit [Platform] in
/-- `INCR` and the like reply with a number or with an error. -/
theorem scalar_incrReply (n : Option ℤ) : Scalar (incrReply n) := by
  cases n with
  | none => exact scalar_error _
  | some n => exact scalar_integer n

/-- `INCRBY` and `DECRBY` reply so as well. -/
theorem yields_incrbyWith (increment : ℤ → ℤ) (args : List RespValue) :
    (incrbyWith increment args : DbM S _).Yields Scalar := by
  refine .bind fun n => ?_
  split
  · exact .pure (scalar_error _)
  · exact .bind fun _ => .bind fun _ => .pure (scalar_incrReply _)

/-- `APPEND` replies with a length. -/
theorem yields_appendCommand (args : List RespValue) : (appendCommand args : DbM S _).Yields Scalar := by
  refine .bind fun _ => .bind fun _ => .bind fun length => ?_
  split
  · exact .pure (scalar_integer _)
  · exact .pure (scalar_error _)

/-- `SETNX` replies with a number. -/
theorem yields_setnxCommand (args : List RespValue) : (setnxCommand args : DbM S _).Yields Scalar := by
  refine .bind fun key => .bind fun present => ?_
  split
  · exact .pure (scalar_integer _)
  · exact .bind fun _ => .bind fun _ => .pure (scalar_integer _)

/-- `RENAME` replies with `OK` or with an error. -/
theorem yields_renameCommand (args : List RespValue) : (renameCommand args : DbM S _).Yields Scalar := by
  refine .bind fun _ => .bind fun _ => .bind fun renamed => ?_
  split
  · exact .pure scalar_ok
  · exact .pure (scalar_error _)

/-- The four commands that set a deadline reply with a number or with an error. -/
theorem yields_deadlineCommand (method : Bytes → ℤ → DbM S Bool) (args : List RespValue) :
    (deadlineCommand method args).Yields Scalar := by
  refine .bind fun n => ?_
  split
  · exact .pure (scalar_error _)
  · exact .bind fun _ => .bind fun _ => .pure (scalar_integer _)

/-! ### Sorted sets -/

section Zset

variable [Double S] [Inhabited S] [LT S] [DecidableLT S] [BEq S]

/-- `ZADD` replies with a number, or with an error where a score cannot be read. -/
theorem yields_zaddCommand (rng : ℕ → Height) (args : List RespValue) :
    (zaddCommand rng args : DbM S _).Yields Scalar := by
  refine .ite (.pure (scalar_error _)) (.bind fun key => .bind fun obj => ?_)
  split
  · refine .bind fun added => ?_
    split
    · exact .pure (scalar_integer _)
    · exact .pure (scalar_error _)
  · exact .pure scalar_wrongType

omit [Double S] in
/-- `ZREM` replies with a number. -/
theorem yields_zremCommand (args : List RespValue) : (zremCommand args : DbM S _).Yields Scalar := by
  refine .bind fun key => .bind fun obj => ?_
  split
  · exact .pure (scalar_integer _)
  · split
    · refine .bind fun x => ?_
      dsimp only
      split
      · exact .bind fun _ => .pure (scalar_integer _)
      · exact .pure (scalar_integer _)
    · exact .pure scalar_wrongType

/-! ### The handlers -/

/-- The write commands that do not block. -/
def Command.IsPlainWrite (cmd : Command) : Prop := .write ∈ cmd.flags ∧ cmd ≠ .blpop ∧ cmd ≠ .brpop

instance (cmd : Command) : Decidable cmd.IsPlainWrite := inferInstanceAs (Decidable (_ ∧ _ ∧ _))

/-- **What holds of the four kinds of handlers** holds of the handler of every write command that does
not block. -/
theorem Command.writes_induct {P : Handler S → Prop} {callbacks : Callbacks S}
    (database : ∀ f : DatabaseCommand S, (∀ args, (f args).Yields Scalar) → P (databaseCommand f))
    (lpush : P (lpushCommand callbacks.wake)) (rpush : P (rpushCommand callbacks.wake))
    (set : P setHandler) (zadd : P zaddHandler) {cmd : Command} (hcmd : cmd.IsPlainWrite) :
    P (cmd.handler callbacks) := by
  cases cmd with
  -- a handler that works on a database and answers, or one of those with a case of their own
  | flushdb => exact database _ fun args => .bind fun _ => .pure scalar_ok
  | lpush => exact lpush
  | rpush => exact rpush
  | lpop => exact database _ fun args => yields_popGeneric args true
  | rpop => exact database _ fun args => yields_popGeneric args false
  | hset => exact database _ yields_hsetCommand
  | sadd => exact database _ yields_saddCommand
  | srem => exact database _ yields_sremCommand
  | zadd => exact zadd
  | zrem => exact database _ yields_zremCommand
  | set => exact set
  | del => exact database _ (yields_countArgs _)
  | mset => exact database _ yields_msetCommand
  | append => exact database _ yields_appendCommand
  | incr | decr => exact database _ fun args => .bind fun _ => .bind fun _ => .pure (scalar_incrReply _)
  | incrby | decrby => exact database _ (yields_incrbyWith _)
  | setnx => exact database _ yields_setnxCommand
  | rename => exact database _ yields_renameCommand
  | expire | pexpire | expireat | pexpireat => exact database _ (yields_deadlineCommand _)
  | persist => exact database _ fun args => .bind fun _ => .bind fun _ => .pure (scalar_integer _)
  -- the two that block are no plain writes, and the other commands no writes at all
  | blpop => exact absurd rfl hcmd.2.1
  | brpop => exact absurd rfl hcmd.2.2
  | _ => exact absurd hcmd.1 (by decide)

end Zset

end RedisDb
