import RedisDb.Commands.StringCommands
import RedisDb.Storage.DatabaseInv

/-!
# `INCR`, `DECR`, `INCRBY` and `DECRBY`

What the four commands do to a counter: a key that is absent, which counts as 0, or holds the decimal text of an
`int64_t`. `IncrCall.Exact` is what a call is for, with every signed operation on the way, and `IncrCall.run_counts`
what a run of calls adds up to.

The guard of `incrby` compares before it adds, so its own sum never leaves the range, and neither do the differences
that it compares with (`IncrCall.guardOperations_inRange`). The guard lets an increment pass exactly if the sum is an
`int64_t` (`DbState.incrby_counts`), and the text that is stored then reads back as the sum. So a counter stays a
counter, which is what carries the induction over a run: a call on the key adds its amount or is refused, and one on
another key leaves it alone (`IncrCall.run_step`).

`decrbyCommand` negates its argument before `incrby` looks at it, and the least `int64_t` has no negative. That
argument is the only one for which a call is not exact.
-/

namespace RedisDb

open RespSerializer

/-! ### Decimal texts -/

/-- The text is an optional minus sign and digits, and spells the `int64_t` `n`. -/
structure Spells (text : Bytes) (n : ℤ) : Prop where
  digits : ∃ neg ds, ds ≠ [] ∧ (∀ b ∈ ds, Decimal.isDigit b = true) ∧ signedVal neg ds = n ∧
    text = if neg then 45 :: ds else ds
  inRange : InRange 64 n

/-- `to_string` spells. -/
theorem spells_toText {n : ℤ} (hn : InRange 64 n) : Spells (toText n) n := by
  refine ⟨⟨decide (n < 0), Decimal.natText n.natAbs, Decimal.natText_ne_nil _,
    fun b => Decimal.isDigit_of_mem_natText, ?_, ?_⟩, hn⟩
  · simp only [signedVal, Decimal.digitsVal_natText, decide_eq_true_eq]
    omega
  · simp only [toText, Decimal.intText, decide_eq_true_eq]

/-- A text of digits is split into itself and nothing. -/
theorem splitDigits_of_digits {ds : Bytes} (hds : ∀ b ∈ ds, Decimal.isDigit b = true) :
    Decimal.splitDigits ds = (ds, []) := by
  simpa using @Decimal.splitDigits_append ds [] hds (by simp)

/-- `from_chars` reads the whole text. -/
theorem Spells.fromChars {text : Bytes} {n : ℤ} (h : Spells text n) : fromChars text = .ok (n, []) := by
  obtain ⟨⟨neg, ds, hne, hds, rfl, rfl⟩, hrange⟩ := h
  have hsplit : splitMinus (if neg then 45 :: ds else ds) = (neg, ds) := by
    cases neg with
    | true => rfl
    | false =>
      obtain ⟨b, t, rfl⟩ := List.exists_cons_of_ne_nil hne
      exact splitMinus_of_isDigit (hds b List.mem_cons_self)
  simp only [RedisDb.fromChars, hsplit, splitDigits_of_digits hds, if_neg hne, if_pos hrange]

/-- `stoll` reads the same number. -/
theorem Spells.stoll {text : Bytes} {n : ℤ} (h : Spells text n) : stoll text = .ok n := by
  obtain ⟨⟨neg, ds, hne, hds, rfl, rfl⟩, hrange⟩ := h
  -- a digit is neither white space nor a sign
  have hdigit {b : UInt8} (hb : Decimal.isDigit b = true) : isSpace b = false ∧ b ≠ 45 ∧ b ≠ 43 := by
    simp only [Decimal.isDigit, Bool.and_eq_true, decide_eq_true_eq, UInt8.le_iff_toNat_le] at hb
    refine ⟨?_, ?_, ?_⟩
    · simp only [isSpace, Bool.or_eq_false_iff, Bool.and_eq_false_iff, decide_eq_false_iff_not,
        UInt8.le_iff_toNat_le]
      refine ⟨?_, .inr fun h => absurd (hb.1.trans h) (by decide)⟩
      rintro rfl
      exact absurd hb.1 (by decide)
    · rintro rfl
      exact absurd hb.1 (by decide)
    · rintro rfl
      exact absurd hb.1 (by decide)
  -- so neither the search for white space nor that for a sign goes into the digits
  have hspace : (if neg then 45 :: ds else ds).dropWhile isSpace = if neg then 45 :: ds else ds := by
    cases neg with
    | true => rfl
    | false =>
      obtain ⟨b, t, rfl⟩ := List.exists_cons_of_ne_nil hne
      simp [(hdigit (hds b List.mem_cons_self)).1]
  have hsplit : splitSign (if neg then 45 :: ds else ds) = (neg, ds) := by
    cases neg with
    | true => rfl
    | false =>
      obtain ⟨b, t, rfl⟩ := List.exists_cons_of_ne_nil hne
      obtain ⟨-, hminus, hplus⟩ := hdigit (hds b List.mem_cons_self)
      simp [splitSign, hminus, hplus]
  simp only [RedisDb.stoll, stoInt, hspace, hsplit, splitDigits_of_digits hds, if_neg hne,
    if_pos hrange]

/-! ### The calls -/

/-- One of the four commands, with the number that its argument spells. -/
inductive Increment where
  | incr
  | decr
  | incrby (n : ℤ)
  | decrby (n : ℤ)
deriving DecidableEq

namespace Increment

/-- What the command is to add. -/
def amount : Increment → ℤ
  | incr => 1
  | decr => -1
  | incrby n => n
  | decrby n => -n

/-- The number that is given as an argument. -/
def argument : Increment → Option ℤ
  | incr => none
  | decr => none
  | incrby n => some n
  | decrby n => some n

/-- What `incrby` is called with. -/
def increment : Increment → ℤ
  | incr => 1
  | decr => -1
  | incrby n => n
  | decrby n => asInt64 (-n)

/-- The handler. -/
def handler {S : Type} [Platform] : Increment → DatabaseCommand S
  | incr => incrCommand
  | decr => decrCommand
  | incrby _ => incrbyCommand
  | decrby _ => decrbyCommand

/-- The results, before any wrapping, of the signed operations of `incrby`: the two differences of the
guard, each behind the test of the sign, and the sum when the guard lets it pass. -/
def guardOperations (current increment : ℤ) : List ℤ :=
  (if 0 < increment then [2 ^ 63 - 1 - increment] else []) ++
  (if increment < 0 then [-2 ^ 63 - increment] else []) ++
  if (0 < increment ∧ 2 ^ 63 - 1 - increment < current) ∨
    (increment < 0 ∧ current < -2 ^ 63 - increment) then [] else [current + increment]

/-- The results, before any wrapping, of the signed operations of the command. -/
def operations (current : ℤ) : Increment → List ℤ
  | decrby n => -n :: guardOperations current (asInt64 (-n))
  | c => guardOperations current c.increment

end Increment

/-- A call of one of the four commands on a key: the arguments hold the key, and the decimal text of the
number. -/
structure IncrCall where
  command : Increment
  key : Bytes
  args : List RespValue
  key_eq : ArgString args 1 key
  argument_eq : ∀ n, command.argument = some n →
    ∃ v text, args[2]? = some v ∧ v.asString = .ok text ∧ Spells text n

section Commands

variable {S : Type}

/-- The key holds the decimal text of an `int64_t`, or is absent, which counts as 0. Whether the key has
expired makes no difference to `incrby`. -/
def Database.Counts (db : Database S) (key : Bytes) (c : ℤ) : Prop :=
  (db.data.lookup key = none ∧ c = 0) ∨
  ∃ obj text, db.data.lookup key = some obj ∧ obj.value = .string text ∧ Spells text c

/-- A counter is an `int64_t`. -/
theorem Database.Counts.inRange {db : Database S} {key : Bytes} {c : ℤ} (h : db.Counts key c) :
    InRange 64 c := by
  rcases h with ⟨-, rfl⟩ | ⟨obj, text, -, -, hspells⟩
  · decide
  · exact hspells.inRange

variable [Platform]

namespace IncrCall

/-- The handler at work. -/
def run (call : IncrCall) : DbM S Bytes := call.command.handler call.args

/-- What a call is for, at a counter that stands at `current`: the exact result is replied and stored, as
a text that reads back as it, when it is an `int64_t`; otherwise the reply is an error and nothing
changes. No signed operation leaves the range of its type. -/
structure Exact (call : IncrCall) (s : DbState S) (current : ℤ) : Prop where
  stored : InRange 64 (current + call.command.amount) → ∃ t lruClock,
    call.run.run s = some (.ok (integer (current + call.command.amount)), t) ∧
    t.db.data.lookup call.key
      = some { value := .string (toText (current + call.command.amount)), lruClock := lruClock } ∧
    fromChars (toText (current + call.command.amount)) = .ok (current + call.command.amount, [])
  refused : ¬ InRange 64 (current + call.command.amount) →
    call.run.run s = some (.ok (error (str "value is not an integer or out of range")), s)
  operations : ∀ i ∈ call.command.operations current, InRange 64 i

end IncrCall

/-! ### One call -/

/-- `incrby` on a counter. -/
theorem DbState.incrby_counts {s : DbState S} {key : Bytes} {current increment : ℤ}
    (hcounts : s.db.Counts key current) (hincrement : InRange 64 increment) :
    s.incrby key increment = if InRange 64 (current + increment) then
      (some (current + increment), s.set key (toText (current + increment))) else (none, s) := by
  -- the test of the guard, over all integers, is whether the sum leaves the range
  have hguard : ((0 < increment ∧ 2 ^ 63 - 1 - increment < current) ∨
      (increment < 0 ∧ current < -2 ^ 63 - increment)) ↔ ¬ InRange 64 (current + increment) := by
    have hc := hcounts.inRange
    unfold InRange at *
    omega
  have hread : s.incrby key increment =
      if (0 < increment ∧ 2 ^ 63 - 1 - increment < current) ∨
          (increment < 0 ∧ current < -2 ^ 63 - increment) then (none, s)
      else (some (current + increment), s.set key (toText (current + increment))) := by
    unfold incrby
    -- an absent key counts as 0, and a text is read by `from_chars`
    rcases hcounts with ⟨hnone, rfl⟩ | ⟨⟨v, lruClock⟩, text, hobj, rfl, hspells⟩
    · simp only [hnone]
    · simp only [hobj, hspells.fromChars]
  by_cases hrange : InRange 64 (current + increment)
  · rw [hread, if_neg (fun h => hguard.mp h hrange), if_pos hrange]
  · rw [hread, if_pos (hguard.mpr hrange), if_neg hrange]

/-- Another key is left alone. -/
theorem DbState.incrby_ne {key key' : Bytes} (hne : key' ≠ key) (s : DbState S) (increment : ℤ) :
    (s.incrby key increment).2.db.data.lookup key' = s.db.data.lookup key' := by
  unfold incrby
  dsimp only
  split
  · rfl
  · split
    · rfl
    · obtain ⟨lruClock, hdata⟩ := s.store_data key { value := .string (toText _) }
      show (s.store key _).db.data.lookup key' = _
      rw [hdata, UnorderedMap.lookup_insert_eq_ite, if_neg hne]

namespace IncrCall

/-- Each handler reads its arguments and calls `incrby`. -/
theorem run_eq (call : IncrCall) (s : DbState S) : call.run.run s
    = some (.ok (incrReply (s.incrby call.key call.command.increment).1),
      (s.incrby call.key call.command.increment).2) := by
  obtain ⟨command, key, args, hkey, harg⟩ := call
  have hstring (t : DbState S) : (argString args 1 : DbM S Bytes).run t = some (.ok key, t) :=
    argString_run hkey t
  -- `INCRBY` and `DECRBY` read the number first, with `std::stoll`
  have hnumber {n : ℤ} (hn : command.argument = some n) (t : DbState S) :
      (argConverted stoll args 2 : DbM S (Option ℤ)).run t = some (.ok (some n), t) := by
    obtain ⟨w, text, hw, htext, hspells⟩ := harg n hn
    exact argConverted_run ⟨w, hw, by simp only [converted, htext, hspells.stoll]⟩ t
  cases command with
  | incr => exact Program.run_bind_ok (hstring s) _
  | decr => exact Program.run_bind_ok (hstring s) _
  | incrby n => exact (Program.run_bind_ok (hnumber rfl s) _).trans (Program.run_bind_ok (hstring s) _)
  | decrby n => exact (Program.run_bind_ok (hnumber rfl s) _).trans (Program.run_bind_ok (hstring s) _)

omit [Platform] in
/-- The number of a call fits its type. -/
theorem argument_inRange (call : IncrCall) {n : ℤ} (hn : call.command.argument = some n) :
    InRange 64 n := by
  obtain ⟨v, text, -, -, hspells⟩ := call.argument_eq n hn
  exact hspells.inRange

omit [Platform] in
/-- Only the negative of the least `int64_t` is not what is meant. -/
theorem increment_eq (call : IncrCall) (hcall : call.command ≠ .decrby (-2 ^ 63)) :
    call.command.increment = call.command.amount ∧ InRange 64 call.command.increment := by
  have hrange {n : ℤ} := call.argument_inRange (n := n)
  cases hc : call.command with
  | incr => exact ⟨rfl, by decide⟩
  | decr => exact ⟨rfl, by decide⟩
  | incrby n => exact ⟨rfl, hrange (by rw [hc]; rfl)⟩
  | decrby n =>
    have hn : InRange 64 n := hrange (by rw [hc]; rfl)
    have hne : n ≠ -2 ^ 63 := fun h => hcall (by rw [hc, h])
    have hneg : InRange 64 (-n) := by
      unfold InRange at *
      omega
    exact ⟨asInt64_of_inRange hneg, asInt64_inRange _⟩

omit [Platform] in
/-- No operation of the guard or behind it leaves the range. -/
theorem guardOperations_inRange {current increment : ℤ} (hc : InRange 64 current)
    (hi : InRange 64 increment) : ∀ i ∈ Increment.guardOperations current increment, InRange 64 i := by
  intro i hmem
  unfold Increment.guardOperations at hmem
  unfold InRange at *
  rw [List.mem_append, List.mem_append] at hmem
  -- each of the three operations, behind the test that it stands behind
  rcases hmem with (hmem | hmem) | hmem <;> split at hmem <;> simp at hmem <;> omega

/-- **One call** is exact unless it is to subtract the least `int64_t`. The command adds its number or subtracts it,
and only the negation of that number does not fit. -/
theorem exact_iff (call : IncrCall) {s : DbState S} {current : ℤ}
    (hcounts : s.db.Counts call.key current) :
    call.Exact s current ↔ call.command ≠ .decrby (-2 ^ 63) := by
  constructor
  · intro hexact hcall
    -- the negation is the operation that overflows
    have hneg : InRange 64 (-(-2 ^ 63)) :=
      hexact.operations _ (by rw [hcall]; exact List.mem_cons_self)
    exact absurd hneg (by decide)
  · intro hcall
    obtain ⟨hamount, hrange⟩ := call.increment_eq hcall
    have hincrby := DbState.incrby_counts hcounts hrange
    -- the sum fits, or it does not; and what is computed on the way
    refine ⟨fun hin => ?_, fun hout => ?_, ?_⟩
    · rw [← hamount] at hin ⊢
      obtain ⟨lruClock, hdata⟩ := s.store_data call.key
        { value := .string (toText (current + call.command.increment)) }
      refine ⟨_, lruClock, by rw [call.run_eq, hincrby, if_pos hin]; rfl, ?_, fromChars_toText hin⟩
      show (s.store call.key _).db.data.lookup call.key = _
      rw [hdata, UnorderedMap.lookup_insert_eq_ite, if_pos rfl]
    · rw [call.run_eq, hincrby, if_neg (hamount ▸ hout)]
      rfl
    · cases hc : call.command with
      | incr => exact guardOperations_inRange hcounts.inRange (by decide)
      | decr => exact guardOperations_inRange hcounts.inRange (by decide)
      | incrby n => exact guardOperations_inRange hcounts.inRange (by rw [hc] at hrange; exact hrange)
      | decrby n =>
        rw [hc] at hamount hrange
        refine List.forall_mem_cons.mpr ⟨?_, guardOperations_inRange hcounts.inRange hrange⟩
        rw [show -n = asInt64 (-n) from hamount.symm]
        exact hrange

/-! ### Runs of calls -/

/-- Calls one after another, on any keys. -/
def runAll (calls : List IncrCall) : DbM S (List Bytes) := calls.mapM run

/-- The call has added to the key: it was made on it, and the reply is a number. -/
def AddedTo (key : Bytes) (call : IncrCall) (reply : Bytes) : Prop :=
  call.key = key ∧ reply.head? = some 58

instance (key : Bytes) (call : IncrCall) (reply : Bytes) : Decidable (AddedTo key call reply) := by
  unfold AddedTo; infer_instance

/-- The sum of what the successful calls on a key were to add. -/
def total (key : Bytes) (calls : List IncrCall) (replies : List Bytes) : ℤ :=
  ((calls.zip replies).map fun x => if AddedTo key x.1 x.2 then x.1.command.amount else 0).sum

/-- What one call does to the counter at a key, whichever key it is made on. On another key the counter is as it was;
on this one the call is exact. -/
theorem run_step {key : Bytes} {s : DbState S} {current : ℤ} (hcounts : s.db.Counts key current)
    (call : IncrCall) (hcall : call.command ≠ .decrby (-2 ^ 63)) :
    ∃ reply t, call.run.run s = some (.ok reply, t) ∧
      t.db.Counts key (current + if AddedTo key call reply then call.command.amount else 0) := by
  -- a call on another key does not count
  by_cases hkey : call.key = key
  · subst hkey
    have hexact := (call.exact_iff hcounts).mpr hcall
    by_cases hin : InRange 64 (current + call.command.amount)
    · obtain ⟨t, lruClock, hrun, hobj, -⟩ := hexact.stored hin
      refine ⟨_, t, hrun, ?_⟩
      rw [if_pos ⟨rfl, rfl⟩]
      exact .inr ⟨_, _, hobj, rfl, spells_toText hin⟩
    · refine ⟨_, s, hexact.refused hin, ?_⟩
      rw [if_neg (fun h => absurd h.2 (by decide)), add_zero]
      exact hcounts
  · refine ⟨_, _, call.run_eq s, ?_⟩
    have hsame := DbState.incrby_ne (Ne.symm hkey) s call.command.increment
    rw [if_neg (fun h => hkey h.1), add_zero]
    unfold Database.Counts
    rw [hsame]
    exact hcounts

/-- **A run of calls** leaves in a counter the exact sum of what its successful calls were to add. By
induction on the calls. -/
theorem run_counts {key : Bytes} (calls : List IncrCall)
    (hcalls : ∀ call ∈ calls, call.command ≠ .decrby (-2 ^ 63)) : ∀ {s : DbState S} {current : ℤ},
    s.db.Counts key current → ∃ replies t, (runAll calls).run s = some (.ok replies, t) ∧
      t.db.Counts key (current + total key calls replies) := by
  induction calls with
  | nil =>
    intro s current hcounts
    exact ⟨[], s, rfl, by rwa [total, List.zip_nil_left, List.map_nil, List.sum_nil, add_zero]⟩
  | cons call calls ih =>
    intro s current hcounts
    -- the first call leaves a counter, by which the others go on
    obtain ⟨reply, t, hrun, ht⟩ := run_step hcounts call (hcalls call List.mem_cons_self)
    obtain ⟨replies, u, hruns, hu⟩ :=
      ih (fun c hc => hcalls c (List.mem_cons_of_mem call hc)) ht
    refine ⟨reply :: replies, u, ?_, ?_⟩
    · rw [runAll, List.mapM_cons, Program.run_bind_ok hrun]
      exact Program.run_bind_ok hruns _
    · rw [total, List.zip_cons_cons, List.map_cons, List.sum_cons, ← add_assoc]
      exact hu

end IncrCall

/-- **Counters.** A call on a counter is exact if and only if it is not to subtract the least `int64_t`; and any
sequence of such calls leaves in a counter the exact sum of the successful ones. The sum is found by induction on the
calls: a call that is refused adds nothing, and one that succeeds what it says. -/
theorem incr_exact :
    (∀ (call : IncrCall) (s : DbState S) (current : ℤ), s.db.Counts call.key current →
      (call.Exact s current ↔ call.command ≠ .decrby (-2 ^ 63))) ∧
    ∀ (calls : List IncrCall) (s : DbState S) (key : Bytes) (current : ℤ),
      (∀ call ∈ calls, call.command ≠ .decrby (-2 ^ 63)) → s.db.Counts key current →
      ∃ replies t, (IncrCall.runAll calls).run s = some (.ok replies, t) ∧
        t.db.Counts key (current + IncrCall.total key calls replies) :=
  ⟨fun call _ _ hcounts => call.exact_iff hcounts,
    fun calls _ _ _ hcalls hcounts => IncrCall.run_counts calls hcalls hcounts⟩

end Commands

section Sample

open Sample

/-- `INCRBY k 41`. -/
def incrbyCall : IncrCall where
  command := .incrby 41
  key := str "k"
  args := [.bulkString (str "INCRBY"), .bulkString (str "k"), .bulkString (str "41")]
  key_eq := ⟨_, rfl, rfl⟩
  argument_eq n hn := by
    obtain rfl : 41 = n := Option.some.inj hn
    exact ⟨_, _, rfl, rfl, ⟨false, str "41", by decide, List.all_eq_true.mp rfl, by decide,
      rfl⟩, by decide⟩

/-- `DECRBY k -9223372036854775808`. -/
def decrbyCall : IncrCall where
  command := .decrby (-2 ^ 63)
  key := str "k"
  args := [.bulkString (str "DECRBY"), .bulkString (str "k"), .bulkString (str "-9223372036854775808")]
  key_eq := ⟨_, rfl, rfl⟩
  argument_eq n hn := by
    obtain rfl : -2 ^ 63 = n := Option.some.inj hn
    exact ⟨_, _, rfl, rfl, ⟨true, str "9223372036854775808", by decide, List.all_eq_true.mp rfl,
      by decide, rfl⟩, by decide⟩

/-- Nothing is stored yet. -/
def noKeys : DbState Score := { idleEnv with db := {} }

/-- From an absent counter `INCRBY k 41` is exact, and two of them add up. -/
theorem incr_exact_incrby : incrbyCall.Exact noKeys 0 ∧
    ∃ replies t, (IncrCall.runAll [incrbyCall, incrbyCall]).run noKeys = some (.ok replies, t) ∧
      t.db.Counts (str "k") (0 + IncrCall.total (str "k") [incrbyCall, incrbyCall] replies) := by
  have hcounts : noKeys.db.Counts (str "k") 0 := .inl ⟨rfl, rfl⟩
  have hcall : incrbyCall.command ≠ .decrby (-2 ^ 63) := by decide
  refine ⟨(incr_exact.1 incrbyCall noKeys 0 hcounts).mpr hcall,
    incr_exact.2 [incrbyCall, incrbyCall] noKeys (str "k") 0 ?_ hcounts⟩
  intro call hmem
  obtain rfl : call = incrbyCall := by simpa using hmem
  exact hcall

/-- From an absent counter the least `int64_t` is to be subtracted. The exact result is no `int64_t`, but
the reply is a number, and the wrong one. -/
theorem decrby_least : noKeys.db.Counts decrbyCall.key 0 ∧
    (∃ t, decrbyCall.run.run noKeys = some (.ok (integer (-2 ^ 63)), t)) ∧
    ¬ InRange 64 (0 + decrbyCall.command.amount) ∧ ¬ decrbyCall.Exact noKeys 0 := by
  have hcounts : noKeys.db.Counts decrbyCall.key 0 := .inl ⟨rfl, rfl⟩
  refine ⟨hcounts, ⟨_, rfl⟩, by decide, fun h => ?_⟩
  exact absurd rfl ((decrbyCall.exact_iff hcounts).mp h)

end Sample

end RedisDb
