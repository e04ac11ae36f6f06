import RedisDb.Lib.Program
import RedisDb.Protocol.RespTypes
import RedisDb.Storage.Database

/-!
# Programs over a database

The command handlers work on a database through the methods of `Database`, and through the pointer
that `getObjectForWrite` returns. `DbState.Call` is one such access, and a `DbM` program is a program
that does nothing else.
-/

namespace RedisDb

variable {S : Type}

/-- A call of a method of `Database`, or a write through a pointer to an object of it. -/
inductive DbState.Call [Platform] : DbState S → DbState S → Prop
  | getObject (key : Bytes) (s : DbState S) : Call s (s.getObject key).2
  | putObject (key : Bytes) (obj : RedisObject S) (s : DbState S) : Call s (s.putObject key obj)
  | setObject (key : Bytes) (obj : RedisObject S) (s : DbState S) : Call s (s.setObject key obj)
  | set (key value : Bytes) (s : DbState S) : Call s (s.set key value)
  | get (key : Bytes) (s : DbState S) : Call s (s.get key).2
  | del (key : Bytes) (s : DbState S) : Call s (s.del key).2
  | contains (key : Bytes) (s : DbState S) : Call s (s.contains key).2
  | type (key : Bytes) (s : DbState S) : Call s (s.type key).2
  | rename (oldKey newKey : Bytes) (s : DbState S) : Call s (s.rename oldKey newKey).2
  | incrby (key : Bytes) (increment : ℤ) (s : DbState S) : Call s (s.incrby key increment).2
  | append (key value : Bytes) (s : DbState S) : Call s (s.append key value).2
  | setExpiry (key : Bytes) (milliseconds : ℤ) (s : DbState S) : Call s (s.setExpiry key milliseconds).2
  | setExpiryAt (key : Bytes) (timestampMs : ℤ) (s : DbState S) :
      Call s (s.setExpiryAt key timestampMs).2
  | pttl (key : Bytes) (s : DbState S) : Call s (s.pttl key).2
  | persist (key : Bytes) (s : DbState S) : Call s (s.persist key).2
  | keys (pattern : Bytes) (s : DbState S) : Call s (s.keys pattern).2
  | flushDb (s : DbState S) : Call s s.flushDb
  | activeExpireCycle (maxSamples : ℕ) (s : DbState S) : Call s (s.activeExpireCycle maxSamples).2
  | randomSample (count : ℤ) (volatileOnly : Bool) (s : DbState S) :
      Call s (s.randomSample count volatileOnly).2

/-- Any number of accesses. -/
def DbState.Calls [Platform] : DbState S → DbState S → Prop := Relation.ReflTransGen DbState.Call

instance [Platform] : IsPreorder (DbState S) DbState.Calls where
  refl _ := .refl
  trans _ _ _ := .trans

/-! ### Arguments -/

/-- The argument holds the string. -/
def ArgString (args : List RespValue) (i : ℕ) (s : Bytes) : Prop :=
  ∃ v, args[i]? = some v ∧ v.asString = .ok s

theorem ArgString.unique {args : List RespValue} {i : ℕ} {a b : Bytes} (ha : ArgString args i a)
    (hb : ArgString args i b) : a = b := by
  obtain ⟨v, hv, hav⟩ := ha
  obtain ⟨w, hw, hbw⟩ := hb
  obtain rfl : v = w := Option.some.inj (hv.symm.trans hw)
  exact Except.ok.inj (hav.symm.trans hbw)

section Arguments

variable {σ : Type} {R : σ → σ → Prop} [IsPreorder σ R]

/-- `args[i]`, which a vector does not check. -/
def arg (args : List RespValue) (i : ℕ) : Program R Exn RespValue := .ofOption args[i]?

/-- `args[i].asString()`. -/
def argString (args : List RespValue) (i : ℕ) : Program R Exn Bytes := do
  .ofExcept (← arg args i).asString

/-- The value of a conversion of `arg.asString()` in a `try` block, if nothing is thrown. -/
def converted {α : Type} (sto : Bytes → Except Exn α) (arg : RespValue) : Option α :=
  match arg.asString with
  | .error _ => none
  | .ok s =>
    match sto s with
    | .error _ => none
    | .ok a => some a

omit [IsPreorder σ R] in
theorem isString_of_converted {α : Type} {sto : Bytes → Except Exn α} {v : RespValue} {a : α}
    (h : converted sto v = some a) : v.IsString := by
  unfold converted at h
  cases hv : v.asString with
  | error e => rw [hv] at h; cases h
  | ok s => exact ⟨s, hv⟩

/-- The argument holds a text in which `stoll` finds the number. -/
def ArgNumber (args : List RespValue) (i : ℕ) (n : ℤ) : Prop :=
  ∃ v, args[i]? = some v ∧ converted stoll v = some n

/-- The conversion of `args[i].asString()` in a `try` block. -/
def argConverted {α : Type} (sto : Bytes → Except Exn α) (args : List RespValue) (i : ℕ) :
    Program R Exn (Option α) := do
  return converted sto (← arg args i)

theorem keeps_argString {I : σ → Prop} (args : List RespValue) (i : ℕ) :
    (argString args i : Program R Exn Bytes).Keeps I :=
  .bind (.ofOption _) fun _ => .ofExcept _

theorem keeps_argConverted {I : σ → Prop} {α : Type} (sto : Bytes → Except Exn α)
    (args : List RespValue) (i : ℕ) : (argConverted sto args i : Program R Exn (Option α)).Keeps I :=
  .bind (.ofOption _) fun _ => .pure _

theorem argString_run {args : List RespValue} {i : ℕ} {s : Bytes} (h : ArgString args i s) (t : σ) :
    (argString args i : Program R Exn Bytes).run t = some (.ok s, t) := by
  obtain ⟨v, hv, hs⟩ := h
  simp only [argString, arg, Program.run_bind, Program.ofOption, hv, Option.map_some,
    Program.ofExcept, hs]

theorem argConverted_run {args : List RespValue} {i : ℕ} {n : ℤ} (h : ArgNumber args i n) (t : σ) :
    (argConverted stoll args i : Program R Exn (Option ℤ)).run t = some (.ok (some n), t) := by
  obtain ⟨v, hv, hn⟩ := h
  simp only [argConverted, arg, Program.run_bind, Program.ofOption, hv, Option.map_some, hn,
    Program.run_pure]

/-- To read an argument gives the string, or throws. -/
theorem post_argString (args : List RespValue) (i : ℕ) (t : σ) :
    (argString args i : Program R Exn Bytes).Post t fun r u => u = t ∧
      ∀ s, r = .ok s → ArgString args i s := by
  rw [argString, arg, Program.post_bind, Program.post_ofOption]
  intro v hv
  exact (Program.post_ofExcept _ _ _).mpr ⟨rfl, fun s hs => ⟨v, hv, hs⟩⟩

/-- What is done with an argument that has been read, or is no string. -/
theorem post_argString_bind {args : List RespValue} {i : ℕ} {α : Type} {f : Bytes → Program R Exn α} {t : σ}
    {Q : Except Exn α → σ → Prop} (hok : ∀ s, ArgString args i s → (f s).Post t Q)
    (herror : (∀ s, ¬ArgString args i s) → ∀ e, Q (.error e) t) : (argString args i >>= f).Post t Q := by
  rw [Program.post_bind]
  intro r u hrun
  obtain ⟨rfl, hr⟩ := post_argString args i t r u hrun
  cases r with
  | ok s => exact hok s (hr s rfl)
  | error e =>
    refine herror (fun s hs => ?_) e
    have hread := hrun.symm.trans (argString_run hs u)
    cases (Prod.mk.inj (Option.some.inj hread)).1

/-- To read a number gives it, or nothing. -/
theorem post_argConverted (args : List RespValue) (i : ℕ) (t : σ) :
    (argConverted stoll args i : Program R Exn (Option ℤ)).Post t fun r u => u = t ∧
      ∃ n, r = .ok n ∧ ∀ m, n = some m → ArgNumber args i m := by
  rw [argConverted, arg, Program.post_bind, Program.post_ofOption]
  intro v hv
  exact (Program.post_pure _ _ _).mpr ⟨rfl, _, rfl, fun m hm => ⟨v, hv, hm⟩⟩

end Arguments

/-! ### The methods as programs -/

/-- A program over a database. -/
abbrev DbM (S : Type) [Platform] (α : Type) : Type := Program (@DbState.Calls S _) Exn α

namespace DbM

variable [Platform] {α : Type}

/-- One access. -/
def call (f : DbState S → α × DbState S) (h : ∀ s, DbState.Call s (f s).2) : DbM S α :=
  .step (fun s => some (f s)) fun s a t hf => by
    obtain rfl : (f s).2 = t := congrArg Prod.snd (Option.some.inj hf)
    exact .single (h s)

@[simp] theorem run_call {f : DbState S → α × DbState S} {h : ∀ s, DbState.Call s (f s).2}
    (s : DbState S) : (call f h).run s = some (.ok (f s).1, (f s).2) := rfl

@[simp] theorem post_call {f : DbState S → α × DbState S} {h : ∀ s, DbState.Call s (f s).2}
    (s : DbState S) (Q : Except Exn α → DbState S → Prop) :
    (call f h).Post s Q ↔ Q (.ok (f s).1) (f s).2 := by
  constructor
  · exact fun hp => hp _ _ rfl
  · intro hQ r t hrun
    obtain ⟨rfl, rfl⟩ := Prod.mk.inj (Option.some.inj hrun)
    exact hQ

@[simp] theorem returns_call {f : DbState S → α × DbState S} {h : ∀ s, DbState.Call s (f s).2}
    (s : DbState S) (Q : α → DbState S → Prop) : (call f h).Returns s Q ↔ Q (f s).1 (f s).2 := by
  refine (post_call s fun r t => ∃ a, r = .ok a ∧ Q a t).trans ?_
  simp

def getObject (key : Bytes) : DbM S (Option (RedisObject S)) :=
  call (DbState.getObject key) (.getObject key)

def getObjectForWrite (key : Bytes) : DbM S (Option (RedisObject S)) :=
  call (DbState.getObjectForWrite key) (.getObject key)

def putObject (key : Bytes) (obj : RedisObject S) : DbM S Unit :=
  call (fun s => ((), s.putObject key obj)) (.putObject key obj)

def setObject (key : Bytes) (obj : RedisObject S) : DbM S Unit :=
  call (fun s => ((), s.setObject key obj)) (.setObject key obj)

def set (key value : Bytes) : DbM S Unit := call (fun s => ((), s.set key value)) (.set key value)

def get (key : Bytes) : DbM S (Option Bytes) := call (DbState.get key) (.get key)

def del (key : Bytes) : DbM S Bool := call (DbState.del key) (.del key)

@[simp] theorem post_getObject (key : Bytes) (s : DbState S)
    (Q : Except Exn (Option (RedisObject S)) → DbState S → Prop) :
    (getObject key).Post s Q ↔ Q (.ok (s.getObject key).1) (s.getObject key).2 := post_call s Q

@[simp] theorem post_getObjectForWrite (key : Bytes) (s : DbState S)
    (Q : Except Exn (Option (RedisObject S)) → DbState S → Prop) :
    (getObjectForWrite key).Post s Q ↔ Q (.ok (s.getObject key).1) (s.getObject key).2 :=
  post_call s Q

@[simp] theorem post_putObject (key : Bytes) (obj : RedisObject S) (s : DbState S)
    (Q : Except Exn Unit → DbState S → Prop) :
    (putObject key obj).Post s Q ↔ Q (.ok ()) (s.putObject key obj) := post_call s Q

@[simp] theorem post_setObject (key : Bytes) (obj : RedisObject S) (s : DbState S)
    (Q : Except Exn Unit → DbState S → Prop) :
    (setObject key obj).Post s Q ↔ Q (.ok ()) (s.setObject key obj) := post_call s Q

@[simp] theorem post_del (key : Bytes) (s : DbState S) (Q : Except Exn Bool → DbState S → Prop) :
    (del key).Post s Q ↔ Q (.ok (s.del key).1) (s.del key).2 := post_call s Q

/-- `exists`. -/
def contains (key : Bytes) : DbM S Bool := call (DbState.contains key) (.contains key)

def type (key : Bytes) : DbM S Bytes := call (DbState.type key) (.type key)

def rename (oldKey newKey : Bytes) : DbM S Bool :=
  call (DbState.rename oldKey newKey) (.rename oldKey newKey)

def incrby (key : Bytes) (increment : ℤ) : DbM S (Option ℤ) :=
  call (DbState.incrby key increment) (.incrby key increment)

def append (key value : Bytes) : DbM S (Option ℕ) :=
  call (DbState.append key value) (.append key value)

def setExpiry (key : Bytes) (milliseconds : ℤ) : DbM S Bool :=
  call (DbState.setExpiry key milliseconds) (.setExpiry key milliseconds)

def setExpiryAt (key : Bytes) (timestampMs : ℤ) : DbM S Bool :=
  call (DbState.setExpiryAt key timestampMs) (.setExpiryAt key timestampMs)

def pttl (key : Bytes) : DbM S ℤ := call (DbState.pttl key) (.pttl key)

def persist (key : Bytes) : DbM S Bool := call (DbState.persist key) (.persist key)

def keys (pattern : Bytes) : DbM S (List Bytes) := call (DbState.keys pattern) (.keys pattern)

def flushDb : DbM S Unit := call (fun s => ((), s.flushDb)) .flushDb

def activeExpireCycle (maxSamples : ℕ) : DbM S ℕ :=
  call (DbState.activeExpireCycle maxSamples) (.activeExpireCycle maxSamples)

def randomSample (count : ℤ) (volatileOnly : Bool) : DbM S (List Bytes) :=
  call (DbState.randomSample count volatileOnly) (.randomSample count volatileOnly)

/-- The object a command adds to: the one at the key, or a new one, reached through the pointer that
the second `getObjectForWrite` returns. -/
def objectForAdd (key : Bytes) (value : Value S) : DbM S (RedisObject S) := do
  match ← getObjectForWrite key with
  | some obj => return obj
  | none =>
    setObject key { value := value }
    .ofOption (← getObjectForWrite key)

end DbM

end RedisDb
