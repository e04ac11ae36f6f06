import RedisDb.Commands.Deadlines
import RedisDb.Commands.EvictionChoice
import RedisDb.Commands.OneKey

/-!
# Commands that end in an error

A command that replies with an error, or throws, is to have done nothing. Most commands look at their arguments and at
the key before they change anything. Those that go through a number of elements look at an element when its turn has
come, and stop where it is refused: the elements before it have been taken up (`Halfway`), and a value to take them up
has been made (`HalfwayInto`).

Where a command does not stop like this, either keys have expired and nothing else has happened, or it has ended
without an error and has read every argument (`DbState.AllOrNothing`). It matters that it has read them all: what is
left unread is looked at when the command is logged, and one that is no string turns the reply into an error then.

The proofs have one shape. A loop that does not stop halfway accepts all of its elements, or refuses the first
(`all_or_head_of_not_halfway`). In the one case it returns, whatever it has done (`returns_pushLoop` and its like); in
the other it has done nothing yet. `post_adding` and `post_removing` put this together for the commands that look up a
key and then loop, and leave a goal for each case to the command. The commands without a loop are cases of what the
method of the database does.
-/

namespace RedisDb

open RespSerializer

variable {S : Type}

/-! ### Stopping halfway -/

section Halfway

variable {E : Type} {accepts : E → Prop} {elements : List E}

/-- A loop takes up the first of its elements, and refuses a later one. -/
def Halfway (accepts : E → Prop) (elements : List E) : Prop :=
  (∃ e, elements.head? = some e ∧ accepts e) ∧ ∃ e ∈ elements, ¬accepts e

/-- A loop that does not stop halfway goes through to the end, or does not begin. -/
theorem all_or_head_of_not_halfway (h : ¬Halfway accepts elements) :
    (∀ e ∈ elements, accepts e) ∨ ∃ e rest, elements = e :: rest ∧ ¬accepts e := by
  cases elements with
  | nil => exact .inl fun e he => (List.not_mem_nil he).elim
  | cons e rest =>
    -- the first element decides
    by_cases hhead : accepts e
    · refine .inl fun x hx => ?_
      by_contra hno
      exact h ⟨⟨e, rfl, hhead⟩, x, hx, hno⟩
    · exact .inr ⟨e, rest, rfl, hhead⟩

/-- A command that adds to the value at a key stops halfway, or it has made the value that it refuses to add to. -/
def HalfwayInto {C : Type} (value : C → Value S) (accepts : E → Prop) (elements : List E) (args : List RespValue)
    (s : DbState S) : Prop :=
  ∃ key, ArgString args 1 key ∧ ((s.db.valueAt (s.clock 0) key = none ∧ ∃ e ∈ elements, ¬accepts e) ∨
    (∃ c, s.db.valueAt (s.clock 0) key = some (value c)) ∧ Halfway accepts elements)

/-- A command that takes something out of the value at a key stops halfway. -/
def HalfwayOut {C : Type} (value : C → Value S) (accepts : E → Prop) (elements : List E) (args : List RespValue)
    (s : DbState S) : Prop :=
  ∃ key, ArgString args 1 key ∧ (∃ c, s.db.valueAt (s.clock 0) key = some (value c)) ∧ Halfway accepts elements

end Halfway

/-- The elements of a command that takes them up two at a time. -/
def inPairs : List RespValue → List (RespValue × RespValue)
  | a :: b :: rest => (a, b) :: inPairs rest
  | _ => []

/-- A field and its value, or a key and its value. -/
def BothStrings (pair : RespValue × RespValue) : Prop := pair.1.IsString ∧ pair.2.IsString

variable (S) in
/-- A score and its member. -/
def ScoreAndMember [Double S] (pair : RespValue × RespValue) : Prop :=
  (∃ score : S, converted Double.stod pair.1 = some score) ∧ pair.2.IsString

/-- A write command stops halfway. -/
def Command.StopsHalfway [Double S] (args : List RespValue) (s : DbState S) : Command → Prop
  | .del => Halfway RespValue.IsString (args.drop 1)
  | .mset => (args.length - 1) % 2 = 0 ∧ Halfway BothStrings (inPairs (args.drop 1))
  | .lpush | .rpush => HalfwayInto .list RespValue.IsString (args.drop 2) args s
  | .sadd => HalfwayInto .set RespValue.IsString (args.drop 2) args s
  | .srem => HalfwayOut .set RespValue.IsString (args.drop 2) args s
  | .hset => args.length % 2 = 0 ∧ HalfwayInto .hash BothStrings (inPairs (args.drop 2)) args s
  | .zadd => args.length % 2 = 0 ∧ HalfwayInto .zset (ScoreAndMember S) (inPairs (args.drop 2)) args s
  | .zrem => HalfwayOut .zset RespValue.IsString (args.drop 2) args s
  | _ => False

/-- The arguments that a write command does not look at. There are none for a request of fewer than 2^31 arguments,
except for `FLUSHDB`. -/
def Command.unread (args : List RespValue) : Command → List RespValue
  | .flushdb => args.drop 1
  | .incr | .decr | .persist | .lpop | .rpop => args.drop 2
  | .incrby | .decrby | .append | .setnx | .rename | .expire | .pexpire | .expireat | .pexpireat => args.drop 3
  | _ => []

/-! ### All or nothing -/

namespace DbState

/-- Keys have expired, and nothing else has happened to the data. -/
abbrev OnlyExpires (s t : DbState S) : Prop := Sheds (fun _ => False) s t

/-- How a command may end: nothing has happened, or it has done what it is for and returned. -/
def AllOrNothing {α : Type} (good : α → DbState S → Prop) (s : DbState S) (r : Except Exn α) (t : DbState S) : Prop :=
  s.OnlyExpires t ∨ ∃ a, r = .ok a ∧ good a t

namespace AllOrNothing

variable {α : Type} {good : α → DbState S → Prop} {s t u : DbState S} {r : Except Exn α}

/-- Keys have expired on the way. -/
theorem nothing (h : s.OnlyExpires t) : AllOrNothing good s r t := .inl h

/-- Nothing has happened at all. -/
theorem unchanged : AllOrNothing good s r s := .inl (.refl _ s)

/-- Keys have expired before. -/
theorem after (h : s.OnlyExpires t) (h' : AllOrNothing good t r u) : AllOrNothing good s r u :=
  h'.imp_left h.trans

end AllOrNothing

end DbState

/-- The reply of a command that has read all of its arguments, and has not ended in an error. -/
def Accepted (args : List RespValue) (reply : Bytes) : Prop := ¬IsError reply ∧ ∀ a ∈ args.drop 1, a.IsString

section Strings

variable {args : List RespValue}

/-- What is no string cannot be read as one. -/
theorem exists_error {v : RespValue} (h : ¬v.IsString) : ∃ e, v.asString = .error e := by
  cases hv : v.asString with
  | ok s => exact absurd ⟨s, hv⟩ h
  | error e => exact ⟨e, rfl⟩

/-- One more argument has been read. -/
theorem isString_drop {i : ℕ} {s : Bytes} (h : ArgString args i s) (hrest : ∀ a ∈ args.drop (i + 1), a.IsString) :
    ∀ a ∈ args.drop i, a.IsString := by
  obtain ⟨v, hv, hs⟩ := h
  obtain ⟨hi, rfl⟩ := List.getElem?_eq_some_iff.mp hv
  intro a ha
  rw [List.drop_eq_getElem_cons hi, List.mem_cons] at ha
  rcases ha with rfl | ha
  · exact ⟨s, hs⟩
  · exact hrest a ha

/-- Arguments that come in pairs of strings are strings. By induction on the arguments, two at a time. -/
theorem isString_of_inPairs {args : List RespValue} (heven : args.length % 2 = 0)
    (h : ∀ pair ∈ inPairs args, BothStrings pair) : ∀ a ∈ args, a.IsString := by
  induction args using List.twoStepInduction with
  | nil => exact fun a ha => (List.not_mem_nil ha).elim
  | singleton arg => cases heven
  | cons_cons arg value rest ih =>
    have hpair := h (arg, value) List.mem_cons_self
    have hrest := ih (by rw [List.length_cons, List.length_cons] at heven; omega) fun pair hp =>
      h pair (List.mem_cons_of_mem _ hp)
    exact List.forall_mem_cons.mpr ⟨hpair.1, List.forall_mem_cons.mpr ⟨hpair.2, hrest⟩⟩

/-- A first pair is made of the first two arguments. -/
theorem exists_of_inPairs_cons {pair : RespValue × RespValue} {rest : List (RespValue × RespValue)}
    (h : inPairs args = pair :: rest) : ∃ a b rest', args = a :: b :: rest' ∧ pair = (a, b) := by
  cases args with
  | nil => cases h
  | cons a args =>
    cases args with
    | nil => cases h
    | cons b rest' => exact ⟨a, b, rest', rfl, (List.cons.inj h).1.symm⟩

/-- A score that converts has been read as a string. -/
theorem ScoreAndMember.bothStrings [Double S] {pair : RespValue × RespValue} (h : ScoreAndMember S pair) :
    BothStrings pair := by
  obtain ⟨⟨score, hscore⟩, hmember⟩ := h
  exact ⟨isString_of_converted hscore, hmember⟩

/-- A number is accepted. -/
theorem accepted_integer (n : ℤ) (h : ∀ a ∈ args.drop 1, a.IsString) : Accepted args (integer n) :=
  ⟨not_isError_integer n, h⟩

/-- So is `OK`. -/
theorem accepted_ok (h : ∀ a ∈ args.drop 1, a.IsString) : Accepted args ok := ⟨by simp [IsError, ok, str], h⟩

/-- A bulk string is no error. -/
theorem not_isError_bulkString (s : Bytes) : ¬IsError (bulkString s) := by simp [IsError, bulkString]

end Strings

open DbState (mem_iff_lookup) in
/-- A value without a deadline is shown at all times where keys only expire. -/
theorem DbState.shows_still {s t : DbState S} {now : ℤ} {key : Bytes} {v : Value S} (h : s.OnlyExpires t)
    (hshown : s.db.valueAt now key = some v) (hnone : s.db.expires.lookup key = none) (now' : ℤ) :
    t.db.valueAt now' key = some v := by
  obtain ⟨obj, hobj, rfl⟩ := Option.map_eq_some_iff.mp hshown
  have hold : s.db.data.lookup key = some obj := by
    unfold Database.visible at hobj
    split at hobj
    · cases hobj
    · exact hobj
  -- it has no deadline, so it has not gone
  have hin : key ∈ t.db.data := by
    by_contra hout
    obtain ⟨n, -, hgone⟩ := h.gone
    obtain ⟨deadline, hdeadline, -⟩ := (hgone key (mem_iff_lookup.mpr ⟨obj, hold⟩) hout).resolve_left id
    cases hnone.symm.trans hdeadline
  obtain ⟨obj', hobj'⟩ := mem_iff_lookup.mp hin
  obtain ⟨old, hlookup, hvalue⟩ := h.remains.values key obj' hobj'
  obtain rfl := Option.some.inj (hold.symm.trans hlookup)
  rw [← hvalue]
  refine Database.valueAt_of_live hobj' ?_
  rintro ⟨deadline, hdeadline, -⟩
  cases hnone.symm.trans (h.remains.expires key deadline hdeadline)

/-! ### Programs -/

section Programs

open DbState

variable [Platform] {α : Type} {good : α → DbState S → Prop} {s t : DbState S} {Q : Except Exn α → DbState S → Prop}

/-- A program that returns what it is for may do what it likes. -/
theorem post_of_returns {p : DbM S α} (h : p.Returns t good) : p.Post t (AllOrNothing good s) :=
  fun r u hrun => .inr (h r u hrun)

/-- Looking a key up. -/
theorem post_getObject_bind {key : Bytes} {f : Option (RedisObject S) → DbM S α}
    (hnone : ∀ t, s.OnlyExpires t → s.db.valueAt (s.clock 0) key = none → (f none).Post t Q)
    (hsome : ∀ obj t, s.OnlyExpires t → s.db.valueAt (s.clock 0) key = some obj.value →
      t.db.data.lookup key = some obj → (f (some obj)).Post t Q) : (DbM.getObject key >>= f).Post s Q := by
  have hspec := getObject_spec key s
  have hsheds : s.OnlyExpires (s.getObject key).2 := (sheds_getObject key s).1
  rw [Program.post_bind, DbM.post_getObject]
  rcases hx : s.getObject key with ⟨r, t⟩
  rw [hx] at hspec hsheds
  cases r with
  | none => exact hnone t hsheds hspec.1
  | some obj => exact hsome obj t hsheds hspec.1 hspec.2.1.here

/-- The object to add to: one that is there, or a new one. -/
theorem post_objectForAdd_bind {key : Bytes} {v : Value S} {f : RedisObject S → DbM S α}
    (hnew : ∀ obj t, s.db.valueAt (s.clock 0) key = none → obj.value = v → t.db.data.lookup key = some obj →
      (f obj).Post t Q)
    (hold : ∀ obj t, s.OnlyExpires t → s.db.valueAt (s.clock 0) key = some obj.value →
      t.db.data.lookup key = some obj → (f obj).Post t Q) : (DbM.objectForAdd key v >>= f).Post s Q := by
  cases hvalue : s.db.valueAt (s.clock 0) key with
  | none =>
    refine (DbM.ends_objectForAdd key v s).post_bind fun obj t hends => ?_
    obtain ⟨hpoints, hcases⟩ := hends
    rcases hcases with ⟨hshown, -⟩ | ⟨-, hobj⟩
    · cases hvalue.symm.trans hshown
    · exact hnew obj t hvalue hobj hpoints.here
  | some old =>
    -- the object that is there is returned as it is
    unfold DbM.objectForAdd
    rewrite [Program.bind_bind]
    refine post_getObject_bind (fun t _ hnone => by cases hvalue.symm.trans hnone) fun obj t ht hshown hobj => ?_
    exact hold obj t ht (hvalue ▸ hshown) hobj

/-- What a command finds at its key. -/
def AtKey (args : List RespValue) (s : DbState S) (v : Value S) : Prop :=
  ∃ key, ArgString args 1 key ∧ s.db.valueAt (s.clock 0) key = some v

/-- **A command that adds to a value** goes through all of its elements, or refuses the first where there is a value, or
finds a value of another kind. -/
theorem post_adding {C E : Type} {value : C → Value S} {new : C} {accepts : E → Prop} {elements : List E}
    {args : List RespValue} {body : Bytes → RedisObject S → DbM S α} (h : ¬HalfwayInto value accepts elements args s)
    (hkey : ∀ e, Q (.error e) s)
    (hall : (∀ e ∈ elements, accepts e) → ∀ key c obj t, ArgString args 1 key → obj.value = value c →
      t.db.data.lookup key = some obj → (body key obj).Post t Q)
    (hhead : ∀ e rest, elements = e :: rest → ¬accepts e → ∀ key c obj t, s.OnlyExpires t → obj.value = value c →
      (body key obj).Post t Q)
    (hother : ∀ key obj t, s.OnlyExpires t → AtKey args s obj.value → (∀ c, obj.value ≠ value c) →
      (body key obj).Post t Q) :
    (argString args 1 >>= fun key => DbM.objectForAdd key (value new) >>= body key).Post s Q := by
  refine post_argString_bind (fun key harg => post_objectForAdd_bind ?_ ?_) fun _ => hkey
  -- a new value is made, so no element is refused
  · intro obj t hnone hobj hthere
    have haccepts : ∀ e ∈ elements, accepts e := by
      by_contra hno
      push Not at hno
      exact h ⟨key, harg, .inl ⟨hnone, hno⟩⟩
    exact hall haccepts key new obj t harg hobj hthere
  · intro obj t ht hshown hthere
    by_cases hkind : ∃ c, obj.value = value c
    · obtain ⟨c, hc⟩ := hkind
      rcases all_or_head_of_not_halfway fun hhalf => h ⟨key, harg, .inr ⟨⟨c, hc ▸ hshown⟩, hhalf⟩⟩ with hgood | hbad
      · exact hall hgood key c obj t harg hc hthere
      · obtain ⟨e, rest, helements, hno⟩ := hbad
        exact hhead e rest helements hno key c obj t ht hc
    · exact hother key obj t ht ⟨key, harg, hshown⟩ fun c hc => hkind ⟨c, hc⟩

/-- **A command that takes something out** goes through all of its elements, or refuses the first, or finds no value of
its kind. -/
theorem post_removing {C E : Type} {value : C → Value S} {accepts : E → Prop} {elements : List E}
    {args : List RespValue} {body : Bytes → Option (RedisObject S) → DbM S α}
    (h : ¬HalfwayOut value accepts elements args s) (hkey : ∀ e, Q (.error e) s)
    (hnone : ∀ key t, s.OnlyExpires t → (body key none).Post t Q)
    (hall : (∀ e ∈ elements, accepts e) → ∀ key c obj t, ArgString args 1 key → obj.value = value c →
      (body key (some obj)).Post t Q)
    (hhead : ∀ e rest, elements = e :: rest → ¬accepts e → ∀ key c obj t, s.OnlyExpires t → obj.value = value c →
      (body key (some obj)).Post t Q)
    (hother : ∀ key obj t, s.OnlyExpires t → (∀ c, obj.value ≠ value c) → (body key (some obj)).Post t Q) :
    (argString args 1 >>= fun key => DbM.getObjectForWrite key >>= body key).Post s Q := by
  refine post_argString_bind (fun key harg => post_getObject_bind (fun t ht _ => hnone key t ht) ?_) fun _ => hkey
  intro obj t ht hshown _
  by_cases hkind : ∃ c, obj.value = value c
  · obtain ⟨c, hc⟩ := hkind
    -- all elements are accepted, or the first one is refused
    rcases all_or_head_of_not_halfway fun hhalf => h ⟨key, harg, ⟨c, hc ▸ hshown⟩, hhalf⟩ with hgood | hbad
    · exact hall hgood key c obj t harg hc
    · obtain ⟨e, rest, helements, hno⟩ := hbad
      exact hhead e rest helements hno key c obj t ht hc
  · exact hother key obj t ht fun c hc => hkind ⟨c, hc⟩

/-- What is done with an element that is read as a string. -/
theorem returns_asString_bind {v : RespValue} {f : Bytes → DbM S α} {Q : α → DbState S → Prop} (hv : v.IsString)
    (hf : ∀ x, v.asString = .ok x → (f x).Returns s Q) :
    ((Program.ofExcept v.asString : DbM S Bytes) >>= f).Returns s Q := by
  obtain ⟨x, hx⟩ := hv
  rw [hx]
  exact hf x hx

/-- And with one that is not. -/
theorem post_asString_bind_error {v : RespValue} {f : Bytes → DbM S α} (hv : ¬v.IsString)
    (hQ : ∀ e, Q (.error e) s) : ((Program.ofExcept v.asString : DbM S Bytes) >>= f).Post s Q := by
  obtain ⟨e, he⟩ := exists_error hv
  rw [he]
  intro r t hrun
  obtain ⟨rfl, rfl⟩ := Prod.mk.inj (Option.some.inj hrun)
  exact hQ e

/-! ### The loops

Each of them goes through to its end where it refuses no element, and does nothing where it refuses the first. -/

/-- A push goes through, and there is a list at its key then. By induction on the elements. -/
theorem returns_pushLoop {key : Bytes} {left : Bool} {obj : RedisObject S} {args : List RespValue}
    (h : ∀ a ∈ args, a.IsString) : ∀ {list : LinkedList} {s : DbState S},
    (∃ o, s.db.data.lookup key = some o ∧ o.value = .list list) →
    (pushLoop key left obj list args).Returns s fun list' t =>
      ∃ o, t.db.data.lookup key = some o ∧ o.value = .list list' := by
  induction args with
  | nil => exact fun hlist => (Program.returns_pure ..).mpr hlist
  | cons a args ih =>
    intro list s _
    refine returns_asString_bind (h a List.mem_cons_self) fun x _ => ?_
    rw [Program.returns_bind]
    exact (DbM.returns_call s _).mpr (ih (fun b hb => h b (List.mem_cons_of_mem _ hb)) ⟨_, AList.lookup_insert _, rfl⟩)

/-- `SADD` and `SREM` go through. By induction on the elements. -/
theorem returns_memberLoop {key : Bytes} {obj : RedisObject S} {method : HashSet → Bytes → HashSet × Bool}
    {args : List RespValue} (h : ∀ a ∈ args, a.IsString) : ∀ {set : HashSet} {count : ℤ} {s : DbState S},
    (memberLoop key obj method set count args).Returns s fun _ _ => True := by
  induction args with
  | nil => exact fun {_ _ _} => (Program.returns_pure ..).mpr trivial
  | cons a args ih =>
    intro set count s
    refine returns_asString_bind (h a List.mem_cons_self) fun x _ => ?_
    rw [Program.returns_bind]
    exact (DbM.returns_call s _).mpr (ih fun b hb => h b (List.mem_cons_of_mem _ hb))

/-- `HSET` goes through. By induction on the elements, two at a time. -/
theorem returns_hsetLoop {key : Bytes} {obj : RedisObject S} {args : List RespValue}
    (h : ∀ pair ∈ inPairs args, BothStrings pair) : ∀ {hash : HashTable Bytes Bytes} {added : ℤ} {s : DbState S},
    (hsetLoop key obj hash added args).Returns s fun _ _ => True := by
  induction args using List.twoStepInduction with
  | nil => exact fun {_ _ _} => (Program.returns_pure ..).mpr trivial
  | singleton arg => exact fun {_ _ _} => (Program.returns_pure ..).mpr trivial
  | cons_cons field value rest ih =>
    intro hash added s
    obtain ⟨hfield, hvalue⟩ := h (field, value) List.mem_cons_self
    refine returns_asString_bind hfield fun x _ => returns_asString_bind hvalue fun y _ => ?_
    rw [Program.returns_bind]
    exact (DbM.returns_call s _).mpr (ih fun pair hp => h pair (List.mem_cons_of_mem _ hp))

/-- A field or a value that is no string is refused before anything is set. -/
theorem post_hsetLoop_refused {key : Bytes} {obj : RedisObject S} {field value : RespValue} {rest : List RespValue}
    {hash : HashTable Bytes Bytes} {added : ℤ} (h : ¬BothStrings (field, value)) :
    (hsetLoop key obj hash added (field :: value :: rest)).Post s fun r t => t = s ∧ ∀ n, r ≠ .ok n := by
  by_cases hfield : field.IsString
  · obtain ⟨x, hx⟩ := hfield
    rw [hsetLoop, hx]
    exact post_asString_bind_error (fun hvalue => h ⟨⟨x, hx⟩, hvalue⟩) fun e => ⟨rfl, fun n hn => by cases hn⟩
  · exact post_asString_bind_error hfield fun e => ⟨rfl, fun n hn => by cases hn⟩

/-- `MSET` goes through. By induction on the elements, two at a time. -/
theorem returns_setPairs {args : List RespValue} (h : ∀ pair ∈ inPairs args, BothStrings pair) : ∀ {s : DbState S},
    (setPairs args : DbM S Unit).Returns s fun _ _ => True := by
  induction args using List.twoStepInduction with
  | nil => exact fun {_} => (Program.returns_pure ..).mpr trivial
  | singleton arg => exact fun {_} => (Program.returns_pure ..).mpr trivial
  | cons_cons key value rest ih =>
    intro s
    obtain ⟨hkey, hvalue⟩ := h (key, value) List.mem_cons_self
    refine returns_asString_bind hkey fun x _ => returns_asString_bind hvalue fun y _ => ?_
    rw [Program.returns_bind]
    exact (DbM.returns_call s _).mpr (ih fun pair hp => h pair (List.mem_cons_of_mem _ hp))

/-- A key or a value that is no string is refused before anything is set. -/
theorem post_setPairs_refused {key value : RespValue} {rest : List RespValue} (h : ¬BothStrings (key, value)) :
    (setPairs (key :: value :: rest) : DbM S Unit).Post s fun r t => t = s ∧ ∀ n, r ≠ .ok n := by
  by_cases hkey : key.IsString
  · obtain ⟨x, hx⟩ := hkey
    rw [setPairs, hx]
    exact post_asString_bind_error (fun hvalue => h ⟨⟨x, hx⟩, hvalue⟩) fun e => ⟨rfl, fun n hn => by cases hn⟩
  · exact post_asString_bind_error hkey fun e => ⟨rfl, fun n hn => by cases hn⟩

/-- A count of keys goes through. By induction on the keys. -/
theorem returns_countLoop {method : Bytes → DbM S Bool} (hmethod : ∀ key s, (method key).Returns s fun _ _ => True)
    {args : List RespValue} (h : ∀ a ∈ args, a.IsString) : ∀ {count : ℤ} {s : DbState S},
    (args.foldlM (fun count arg => do
      return if ← method (← .ofExcept arg.asString) then count + 1 else count) count : DbM S ℤ).Returns s
        fun _ _ => True := by
  induction args with
  | nil => exact fun {_ _} => (Program.returns_pure ..).mpr trivial
  | cons a args ih =>
    intro count s
    rw [List.foldlM_cons, Program.returns_bind]
    refine returns_asString_bind (h a List.mem_cons_self) fun x _ => ?_
    rw [Program.returns_bind]
    exact (hmethod x s).mono fun _ t _ => (Program.returns_pure ..).mpr (ih fun b hb => h b (List.mem_cons_of_mem _ hb))

section Zset

variable [Double S] [Inhabited S] [LT S] [DecidableLT S] [BEq S]

/-- `ZADD` goes through. By induction on the elements, two at a time. -/
theorem returns_zaddLoop {key : Bytes} {obj : RedisObject S} {args : List RespValue}
    (h : ∀ pair ∈ inPairs args, ScoreAndMember S pair) : ∀ {zset : SortedSet S} {added : ℤ} {s : DbState S},
    (zaddLoop key obj zset added args).Returns s fun n _ => ∃ added, n = some added := by
  induction args using List.twoStepInduction with
  | nil => exact fun {_ added _} => (Program.returns_pure ..).mpr ⟨added, rfl⟩
  | singleton arg => exact fun {_ added _} => (Program.returns_pure ..).mpr ⟨added, rfl⟩
  | cons_cons score member rest ih =>
    intro zset added s
    obtain ⟨⟨x, hx⟩, hmember⟩ := h (score, member) List.mem_cons_self
    unfold zaddLoop
    simp only [hx]
    refine returns_asString_bind hmember fun y _ => ?_
    rw [Program.returns_bind]
    exact (DbM.returns_call s _).mpr (ih fun pair hp => h pair (List.mem_cons_of_mem _ hp))

/-- A score that does not convert, or a member that is no string, is refused before anything is added. -/
theorem post_zaddLoop_refused {key : Bytes} {obj : RedisObject S} {score member : RespValue} {rest : List RespValue}
    {zset : SortedSet S} {added : ℤ} (h : ¬ScoreAndMember S (score, member)) :
    (zaddLoop key obj zset added (score :: member :: rest)).Post s fun r t => t = s ∧ ∀ n, r ≠ .ok (some n) := by
  unfold zaddLoop
  cases hscore : (converted Double.stod score : Option S) with
  | none => exact (Program.post_pure ..).mpr ⟨rfl, fun n hn => by cases hn⟩
  | some x => exact post_asString_bind_error (fun hmember => h ⟨⟨x, hscore⟩, hmember⟩) fun e => ⟨rfl, fun n hn => by cases hn⟩

omit [Double S] in
/-- `ZREM` goes through. By induction on the elements. -/
theorem returns_zremLoop {key : Bytes} {obj : RedisObject S} {args : List RespValue} (h : ∀ a ∈ args, a.IsString) :
    ∀ {zset : SortedSet S} {removed : ℤ} {s : DbState S},
    (zremLoop key obj zset removed args).Returns s fun _ _ => True := by
  induction args with
  | nil => exact fun {_ _ _} => (Program.returns_pure ..).mpr trivial
  | cons a args ih =>
    intro zset removed s
    refine returns_asString_bind (h a List.mem_cons_self) fun x _ => ?_
    rw [Program.returns_bind]
    exact (DbM.returns_call s _).mpr (ih fun b hb => h b (List.mem_cons_of_mem _ hb))

end Zset

/-! ### Collections -/

/-- `SADD`, whose elements are members. -/
theorem allOrNothing_saddCommand {args : List RespValue}
    (h : ¬HalfwayInto .set RespValue.IsString (args.drop 2) args s) :
    (saddCommand args).Post s (AllOrNothing (fun reply _ => Accepted args reply) s) := by
  refine post_adding h (fun _ => .unchanged) ?_ ?_ ?_
  -- all members are strings, and the reply is how many of them are new
  · intro hgood key set obj t harg hset _
    simp only [hset]
    refine post_of_returns ?_
    rw [Program.returns_bind]
    exact (returns_memberLoop hgood).mono fun _ _ _ =>
      (Program.returns_pure ..).mpr (accepted_integer _ (isString_drop harg hgood))
  · intro e rest helements hno key set obj t ht hset
    simp only [hset, helements]
    rw [Program.post_bind]
    exact post_asString_bind_error hno fun _ => .nothing ht
  · intro key obj t ht _ hno
    dsimp only
    split
    · next set hset => exact absurd hset (hno set)
    · exact (Program.post_pure ..).mpr (.nothing ht)

/-- `SREM`, which may delete the key at its end. -/
theorem allOrNothing_sremCommand {args : List RespValue}
    (h : ¬HalfwayOut .set RespValue.IsString (args.drop 2) args s) :
    (sremCommand args).Post s (AllOrNothing (fun reply _ => Accepted args reply) s) := by
  refine post_removing h (fun _ => .unchanged) (fun _ t ht => (Program.post_pure ..).mpr (.nothing ht)) ?_ ?_ ?_
  · intro hgood key set obj t harg hset
    simp only [hset]
    refine post_of_returns ?_
    rw [Program.returns_bind]
    -- with arguments that are strings the reply is a number
    have hreply (n : ℤ) : Accepted args (integer n) := accepted_integer n (isString_drop harg hgood)
    refine (returns_memberLoop hgood).mono fun x u _ => ?_
    split
    · rw [Program.returns_bind]
      exact (DbM.returns_call u _).mpr ((Program.returns_pure ..).mpr (hreply _))
    · exact (Program.returns_pure ..).mpr (hreply _)
  · intro e rest helements hno key set obj t ht hset
    simp only [hset, helements]
    rw [Program.post_bind]
    exact post_asString_bind_error hno fun _ => .nothing ht
  · intro key obj t ht hno
    dsimp only
    split
    · next set hset => exact absurd hset (hno set)
    · exact (Program.post_pure ..).mpr (.nothing ht)

/-- `HSET`, whose elements are fields with values. -/
theorem allOrNothing_hsetCommand {args : List RespValue}
    (h : ¬(args.length % 2 = 0 ∧ HalfwayInto .hash BothStrings (inPairs (args.drop 2)) args s)) :
    (hsetCommand args).Post s (AllOrNothing (fun reply _ => Accepted args reply) s) := by
  unfold hsetCommand
  split
  · exact (Program.post_pure ..).mpr .unchanged
  · next heven =>
    replace heven : args.length % 2 = 0 := not_not.mp heven
    refine post_adding (fun hhalf => h ⟨heven, hhalf⟩) (fun _ => .unchanged) ?_ ?_ ?_
    · -- all pairs are strings, so none is refused
      intro hgood key hash obj t harg hhash _
      simp only [hhash]
      refine post_of_returns ?_
      rw [Program.returns_bind]
      have hlength : (args.drop 2).length % 2 = 0 := by rw [List.length_drop]; omega
      have hrest : ∀ a ∈ args.drop 2, a.IsString := isString_of_inPairs hlength hgood
      exact (returns_hsetLoop hgood).mono fun _ _ _ =>
        (Program.returns_pure ..).mpr (accepted_integer _ (isString_drop harg hrest))
    · intro e rest helements hno key hash obj t ht hhash
      -- the first pair is refused
      obtain ⟨field, value, rest', hargs, rfl⟩ := exists_of_inPairs_cons helements
      simp only [hhash, hargs]
      rw [Program.post_bind]
      refine (post_hsetLoop_refused hno).mono ?_
      rintro r u ⟨rfl, hr⟩
      cases r with
      | ok n => exact absurd rfl (hr n)
      | error e => exact .nothing ht
    · -- the key has another type
      intro key obj t ht _ hno
      split
      · next hash hhash => exact absurd hhash (hno hash)
      · exact (Program.post_pure ..).mpr (.nothing ht)

/-- A pop reads its key, and takes an element if there is one. -/
theorem allOrNothing_popGeneric {args : List RespValue} (h : ∀ a ∈ args.drop 2, a.IsString) (left : Bool) :
    (popGeneric args left).Post s (AllOrNothing (fun reply _ => Accepted args reply) s) := by
  refine post_argString_bind (fun key harg => post_getObject_bind ?_ ?_) fun _ _ => .unchanged
  · exact fun t ht _ => (Program.post_pure ..).mpr (.nothing ht)
  · intro obj t ht _ _
    -- an element has been popped, and is replied
    have hreply (val : Bytes) : Accepted args (bulkString val) := ⟨not_isError_bulkString val, isString_drop harg h⟩
    dsimp only
    split
    · split
      · refine post_of_returns ?_
        rw [Program.returns_bind]
        refine (DbM.returns_call t _).mpr ?_
        split
        · rw [Program.returns_bind]
          exact (DbM.returns_call _ _).mpr ((Program.returns_pure ..).mpr (hreply _))
        · exact (Program.returns_pure ..).mpr (hreply _)
      · exact (Program.post_pure ..).mpr (.nothing ht)
    · exact (Program.post_pure ..).mpr (.nothing ht)

section Zset

variable [Double S] [Inhabited S] [LT S] [DecidableLT S] [BEq S]

/-- `ZADD`, whose elements are scores with members. -/
theorem allOrNothing_zaddCommand {args : List RespValue} (rng : ℕ → Height)
    (h : ¬(args.length % 2 = 0 ∧ HalfwayInto .zset (ScoreAndMember S) (inPairs (args.drop 2)) args s)) :
    (zaddCommand rng args).Post s (AllOrNothing (fun reply _ => Accepted args reply) s) := by
  unfold zaddCommand
  split
  · exact (Program.post_pure ..).mpr .unchanged
  · next heven =>
    replace heven : args.length % 2 = 0 := not_not.mp heven
    refine post_adding (fun hhalf => h ⟨heven, hhalf⟩) (fun _ => .unchanged) ?_ ?_ ?_
    · -- all scores can be read, so none is refused
      intro hgood key zset obj t harg hzset _
      simp only [hzset]
      refine post_of_returns ?_
      rw [Program.returns_bind]
      have hlength : (args.drop 2).length % 2 = 0 := by rw [List.length_drop]; omega
      have hrest : ∀ a ∈ args.drop 2, a.IsString :=
        isString_of_inPairs hlength fun pair hpair => (hgood pair hpair).bothStrings
      refine (returns_zaddLoop hgood).mono ?_
      rintro _ u ⟨added, rfl⟩
      exact (Program.returns_pure ..).mpr (accepted_integer _ (isString_drop harg hrest))
    · -- the first score is refused
      intro e rest helements hno key zset obj t ht hzset
      obtain ⟨score, member, rest', hargs, rfl⟩ := exists_of_inPairs_cons helements
      simp only [hzset, hargs]
      rw [Program.post_bind]
      refine (post_zaddLoop_refused hno).mono ?_
      rintro r u ⟨rfl, hr⟩
      rcases r with e | _ | added
      · exact .nothing ht
      · exact (Program.post_pure ..).mpr (.nothing ht)
      · exact absurd rfl (hr added)
    · intro key obj t ht _ hno
      split
      · next zset hzset => exact absurd hzset (hno zset)
      · exact (Program.post_pure ..).mpr (.nothing ht)

omit [Double S] in
/-- `ZREM`, which may delete the key at its end. -/
theorem allOrNothing_zremCommand {args : List RespValue}
    (h : ¬HalfwayOut .zset RespValue.IsString (args.drop 2) args s) :
    (zremCommand args).Post s (AllOrNothing (fun reply _ => Accepted args reply) s) := by
  refine post_removing h (fun _ => .unchanged) (fun _ t ht => (Program.post_pure ..).mpr (.nothing ht)) ?_ ?_ ?_
  · intro hgood key zset obj t harg hzset
    simp only [hzset]
    refine post_of_returns ?_
    rw [Program.returns_bind]
    -- with arguments that are strings the reply is a number
    have hreply (n : ℤ) : Accepted args (integer n) := accepted_integer n (isString_drop harg hgood)
    refine (returns_zremLoop hgood).mono fun x u _ => ?_
    split
    · rw [Program.returns_bind]
      exact (DbM.returns_call u _).mpr ((Program.returns_pure ..).mpr (hreply _))
    · exact (Program.returns_pure ..).mpr (hreply _)
  · intro e rest helements hno key zset obj t ht hzset
    simp only [hzset, helements]
    rw [Program.post_bind]
    exact post_asString_bind_error hno fun _ => .nothing ht
  · intro key obj t ht hno
    dsimp only
    split
    · next zset hzset => exact absurd hzset (hno zset)
    · exact (Program.post_pure ..).mpr (.nothing ht)

end Zset

/-! ### Strings and keys -/

/-- `FLUSHDB` reads no argument. -/
theorem allOrNothing_flushdbCommand {args : List RespValue} (h : ∀ a ∈ args.drop 1, a.IsString) :
    (flushdbCommand args).Post s (AllOrNothing (fun reply _ => Accepted args reply) s) := by
  refine post_of_returns ?_
  unfold flushdbCommand
  rw [Program.returns_bind]
  exact (DbM.returns_call s _).mpr ((Program.returns_pure ..).mpr (accepted_ok h))

/-- `DEL`, whose elements are keys. -/
theorem allOrNothing_delCommand {args : List RespValue} (h : ¬Halfway RespValue.IsString (args.drop 1)) :
    (delCommand args).Post s (AllOrNothing (fun reply _ => Accepted args reply) s) := by
  unfold delCommand countArgs
  rcases all_or_head_of_not_halfway h with hgood | ⟨a, rest, hargs, hno⟩
  · refine post_of_returns ?_
    rw [Program.returns_bind]
    have hdel (key : Bytes) (s : DbState S) : (DbM.del key).Returns s fun _ _ => True :=
      (DbM.returns_call s _).mpr trivial
    refine (returns_countLoop hdel hgood).mono fun count t _ => ?_
    exact (Program.returns_pure ..).mpr (accepted_integer count hgood)
  · rw [hargs, List.foldlM_cons, Program.post_bind, Program.post_bind]
    exact post_asString_bind_error hno fun _ => AllOrNothing.unchanged

/-- `MSET`, whose elements are keys with values. -/
theorem allOrNothing_msetCommand {args : List RespValue}
    (h : ¬((args.length - 1) % 2 = 0 ∧ Halfway BothStrings (inPairs (args.drop 1)))) :
    (msetCommand args).Post s (AllOrNothing (fun reply _ => Accepted args reply) s) := by
  unfold msetCommand
  split
  · exact (Program.post_pure ..).mpr .unchanged
  · next heven =>
    replace heven : (args.length - 1) % 2 = 0 := not_not.mp heven
    rcases all_or_head_of_not_halfway fun hhalf => h ⟨heven, hhalf⟩ with hgood | ⟨pair, rest, hpairs, hno⟩
    · refine post_of_returns ?_
      rw [Program.returns_bind]
      have hlength : (args.drop 1).length % 2 = 0 := by rwa [List.length_drop]
      exact (returns_setPairs hgood).mono fun _ _ _ =>
        (Program.returns_pure ..).mpr (accepted_ok (isString_of_inPairs hlength hgood))
    · -- the first pair is refused before anything is set
      obtain ⟨key, value, rest', hargs, rfl⟩ := exists_of_inPairs_cons hpairs
      rw [hargs, Program.post_bind]
      refine (post_setPairs_refused hno).mono ?_
      rintro r u ⟨rfl, hr⟩
      cases r with
      | ok n => exact absurd rfl (hr n)
      | error e => exact .unchanged

/-- An increment that is refused changes nothing. -/
theorem allOrNothing_incrby {args : List RespValue} (h : ∀ a ∈ args.drop 1, a.IsString) (key : Bytes) (n : ℤ) :
    (do return incrReply (← DbM.incrby key n) : DbM S Bytes).Post s
      (AllOrNothing (fun reply _ => Accepted args reply) s) := by
  rw [Program.post_bind, DbM.incrby, DbM.post_call]
  have hcases : (s.incrby key n = (none, s)) ∨ ∃ m, (s.incrby key n).1 = some m := by
    unfold incrby
    dsimp only
    split
    · exact .inl rfl
    · split
      · exact .inl rfl
      · exact .inr ⟨_, rfl⟩
  rcases hcases with hnone | ⟨m, hm⟩
  · rw [hnone]
    exact (Program.post_pure ..).mpr .unchanged
  · simp only [hm]
    exact (Program.post_pure ..).mpr (.inr ⟨_, rfl, accepted_integer m h⟩)

/-- `INCR` and `DECR`. -/
theorem allOrNothing_incrCommand {args : List RespValue} (h : ∀ a ∈ args.drop 2, a.IsString) (n : ℤ) :
    (do return incrReply (← DbM.incrby (← argString args 1) n) : DbM S Bytes).Post s
      (AllOrNothing (fun reply _ => Accepted args reply) s) :=
  post_argString_bind (fun key harg => allOrNothing_incrby (isString_drop harg h) key n) fun _ _ => .unchanged

/-- `INCRBY` and `DECRBY` read the number before the key. -/
theorem allOrNothing_incrbyWith {args : List RespValue} (h : ∀ a ∈ args.drop 3, a.IsString) (increment : ℤ → ℤ) :
    (incrbyWith increment args).Post s (AllOrNothing (fun reply _ => Accepted args reply) s) := by
  unfold incrbyWith
  rw [Program.post_bind]
  refine (post_argConverted args 2 s).mono ?_
  rintro _ t ⟨rfl, n, rfl, hn⟩
  cases n with
  | none => exact (Program.post_pure ..).mpr .unchanged
  | some n =>
    obtain ⟨v, hv, hnumber⟩ := hn n rfl
    obtain ⟨x, hx⟩ := isString_of_converted hnumber
    exact allOrNothing_incrCommand (isString_drop ⟨v, hv, hx⟩ h) _

/-- `APPEND` is refused by an object of another type. -/
theorem allOrNothing_appendCommand {args : List RespValue} (h : ∀ a ∈ args.drop 3, a.IsString) :
    (appendCommand args).Post s (AllOrNothing (fun reply _ => Accepted args reply) s) := by
  refine post_argString_bind (fun key harg => post_argString_bind (fun value hvalue => ?_) fun _ _ => .unchanged)
    fun _ _ => .unchanged
  rw [Program.post_bind, DbM.append, DbM.post_call]
  -- another type is refused, and otherwise there is a length to reply
  have hcases : s.append key value = (none, s) ∨ ∃ n, (s.append key value).1 = some n := by
    unfold append
    split
    · exact .inr ⟨_, rfl⟩
    · split
      · exact .inr ⟨_, rfl⟩
      · exact .inl rfl
  rcases hcases with hnone | ⟨n, hn⟩
  · rw [hnone]
    exact (Program.post_pure ..).mpr .unchanged
  · simp only [hn]
    exact (Program.post_pure ..).mpr
      (.inr ⟨_, rfl, accepted_integer n (isString_drop harg (isString_drop hvalue h))⟩)

/-- `SETNX` looks at the key before it reads the value. -/
theorem allOrNothing_setnxCommand {args : List RespValue} (h : ∀ a ∈ args.drop 3, a.IsString) :
    (setnxCommand args).Post s (AllOrNothing (fun reply _ => Accepted args reply) s) := by
  refine post_argString_bind (fun key harg => ?_) fun _ _ => .unchanged
  rw [Program.post_bind, DbM.contains, DbM.post_call]
  -- looking at the key may take it out
  have hlook : s.OnlyExpires (s.contains key).2 := by
    have hstate : (s.contains key).2 = (s.checkAndExpire key).2 := by
      unfold contains
      dsimp only
      split <;> rfl
    rw [hstate]
    exact sheds_checkAndExpire key s
  dsimp only
  split
  · exact (Program.post_pure ..).mpr (.nothing hlook)
  · refine post_argString_bind (fun value hvalue => post_of_returns ?_) fun _ _ => .nothing hlook
    rw [Program.returns_bind]
    exact (DbM.returns_call _ _).mpr
      ((Program.returns_pure ..).mpr (accepted_integer 1 (isString_drop harg (isString_drop hvalue h))))

/-- `RENAME` is refused where there is no such key. -/
theorem allOrNothing_renameCommand {args : List RespValue} (h : ∀ a ∈ args.drop 3, a.IsString) :
    (renameCommand args).Post s (AllOrNothing (fun reply _ => Accepted args reply) s) := by
  refine post_argString_bind (fun key harg => post_argString_bind (fun newKey hnew => ?_) fun _ _ => .unchanged)
    fun _ _ => .unchanged
  rw [Program.post_bind, DbM.rename, DbM.post_call]
  have hcases : s.rename key newKey = (false, s) ∨ (s.rename key newKey).1 = true := by
    unfold rename
    split
    · exact .inl rfl
    · exact .inr rfl
  rcases hcases with hnone | htrue
  · rw [hnone]
    exact (Program.post_pure ..).mpr .unchanged
  · simp only [htrue]
    exact (Program.post_pure ..).mpr (.inr ⟨_, rfl, accepted_ok (isString_drop harg (isString_drop hnew h))⟩)

/-- The four commands that set a deadline. -/
theorem allOrNothing_deadlineCommand {args : List RespValue} (h : ∀ a ∈ args.drop 3, a.IsString)
    {method : Bytes → ℤ → DbM S Bool} (hmethod : ∀ key n s, (method key n).Returns s fun _ _ => True) :
    (deadlineCommand method args).Post s (AllOrNothing (fun reply _ => Accepted args reply) s) := by
  unfold deadlineCommand
  rw [Program.post_bind]
  refine (post_argConverted args 2 s).mono ?_
  rintro _ t ⟨rfl, n, rfl, hn⟩
  cases n with
  | none => exact (Program.post_pure ..).mpr .unchanged
  | some n =>
    obtain ⟨v, hv, hnumber⟩ := hn n rfl
    obtain ⟨x, hx⟩ := isString_of_converted hnumber
    refine post_argString_bind (fun key harg => post_of_returns ?_) fun _ _ => .unchanged
    rw [Program.returns_bind]
    exact (hmethod key n t).mono fun _ _ _ =>
      (Program.returns_pure ..).mpr (accepted_integer _ (isString_drop harg (isString_drop ⟨v, hv, hx⟩ h)))

/-- `PERSIST` takes a deadline away, or there is none. -/
theorem allOrNothing_persistCommand {args : List RespValue} (h : ∀ a ∈ args.drop 2, a.IsString) :
    (persistCommand args).Post s (AllOrNothing (fun reply _ => Accepted args reply) s) := by
  refine post_argString_bind (fun key harg => post_of_returns ?_) fun _ _ => .unchanged
  rw [Program.returns_bind]
  exact (DbM.returns_call _ _).mpr ((Program.returns_pure ..).mpr (accepted_integer _ (isString_drop harg h)))

omit [Platform] in
/-- Options that can be read are strings. By induction on the arguments, two at a time. -/
theorem isString_of_readOptions {args : List RespValue} : ∀ {opts : List SetOption},
    readOptions args = some opts → ∀ a ∈ args, a.IsString := by
  induction args using List.twoStepInduction with
  | nil => exact fun _ a ha => (List.not_mem_nil ha).elim
  | singleton arg =>
    intro opts h
    refine List.forall_mem_singleton.mpr ?_
    by_contra hno
    obtain ⟨e, he⟩ := exists_error hno
    rw [readOptions, he] at h
    cases h
  | cons_cons arg value rest ih ih' =>
    intro opts h
    unfold readOptions at h
    split at h
    · cases h
    · next flag hflag =>
      refine List.forall_mem_cons.mpr ⟨⟨flag, hflag⟩, ?_⟩
      -- an option with an argument: a number is read from it, so it is a string
      have hvalue (scale : ℤ) (h : ((converted stoll value).bind fun n =>
          (readOptions rest).map (.expire scale n :: ·)) = some opts) : ∀ a ∈ value :: rest, a.IsString := by
        obtain ⟨n, hn, hrest⟩ := Option.bind_eq_some_iff.mp h
        obtain ⟨opts', hopts, -⟩ := Option.map_eq_some_iff.mp hrest
        exact List.forall_mem_cons.mpr ⟨isString_of_converted hn, ih hopts⟩
      split at h
      · obtain ⟨opts', hopts, -⟩ := Option.map_eq_some_iff.mp h
        exact ih' value hopts
      · split at h
        · obtain ⟨opts', hopts, -⟩ := Option.map_eq_some_iff.mp h
          exact ih' value hopts
        · split at h
          · exact hvalue 1000 h
          · split at h
            · exact hvalue 1 h
            · exact ih' value h

/-- `SET` reads its options before it writes. -/
theorem allOrNothing_setCommand (args : List RespValue) :
    (setCommand args).Post s (AllOrNothing (fun x _ => Accepted args x.1) s) := by
  refine (post_setCommand args s).mono fun r t h => ?_
  rcases h with ⟨rfl, -⟩ | ⟨key, value, opts, harg, hvalue, hopts, -, hrun⟩
  · exact .unchanged
  · have hstrings := isString_drop harg (isString_drop hvalue (isString_of_readOptions hopts))
    by_cases hwrites : (opts.foldl SetOption.apply {}).Writes key s
    · obtain ⟨u, hrun', -⟩ := setWith_writes value hwrites
      obtain ⟨rfl, -⟩ := Prod.mk.inj (Option.some.inj (hrun.symm.trans hrun'))
      exact .inr ⟨_, rfl, accepted_ok hstrings⟩
    · obtain ⟨u, hrun'⟩ := setWith_declines value hwrites
      obtain ⟨rfl, -⟩ := Prod.mk.inj (Option.some.inj (hrun.symm.trans hrun'))
      exact .inr ⟨_, rfl, by simp [IsError, nullBulkString, str], hstrings⟩

/-! ### Pushes and blocking pops -/

/-- What a push has done when it has pushed: it has read all arguments, and there is a list at the key. -/
def Pushed (args : List RespValue) (x : Bytes × Option Bytes) (t : DbState S) : Prop :=
  Accepted args x.1 ∧ ∃ key obj list, ArgString args 1 key ∧ (x.2 = none ∨ x.2 = some key) ∧
    t.db.data.lookup key = some obj ∧ obj.value = .list list

/-- The elements are pushed where there is a list to push them to. -/
theorem returns_pushed {args : List RespValue} {key : Bytes} {obj : RedisObject S} {list : LinkedList}
    (hkey : ArgString args 1 key) (hstrings : ∀ a ∈ args.drop 2, a.IsString) (hlist : obj.value = .list list)
    (hobj : t.db.data.lookup key = some obj) (left : Bool) :
    (do
      let list ← pushLoop key left obj list (args.drop 2)
      return (integer list.size, if 0 < asInt (args.length - 2) then some key else none) : DbM S _).Returns t
        (Pushed args) := by
  rw [Program.returns_bind]
  refine (returns_pushLoop hstrings ⟨obj, hobj, hlist⟩).mono fun list' u ⟨obj', hobj', hlist'⟩ => ?_
  refine (Program.returns_pure ..).mpr
    ⟨accepted_integer _ (isString_drop hkey hstrings), key, obj', list', hkey, ?_, hobj', hlist'⟩
  split
  · exact .inr rfl
  · exact .inl rfl

/-- A push, which says whether a client is to be woken. -/
theorem allOrNothing_pushElements {args : List RespValue} {left : Bool}
    (h : ¬HalfwayInto .list RespValue.IsString (args.drop 2) args s) :
    (pushElements args left).Post s fun r t =>
      (s.OnlyExpires t ∧ ((∃ e, r = .error e) ∨
        r = .ok (wrongType, none) ∧ ∃ v, AtKey args s v ∧ ∀ list, v ≠ .list list)) ∨
      ∃ x, r = .ok x ∧ Pushed args x t := by
  refine post_adding h (fun e => .inl ⟨.refl _ s, .inl ⟨e, rfl⟩⟩) ?_ ?_ ?_
  · intro hgood key list obj t harg hlist hobj
    simp only [hlist]
    exact fun r u hrun => .inr (returns_pushed harg hgood hlist hobj left r u hrun)
  · -- the first element is refused, and nothing has been pushed
    intro e rest helements hno key list obj t ht hlist
    simp only [hlist, helements]
    rw [Program.post_bind]
    exact post_asString_bind_error hno fun e' => .inl ⟨ht, .inl ⟨e', rfl⟩⟩
  · intro key obj t ht hshown hno
    split
    · next list hlist => exact absurd hlist (hno list)
    · exact (Program.post_pure ..).mpr (.inl ⟨ht, .inr ⟨rfl, obj.value, hshown, hno⟩⟩)

/-- A push onto a key that shows a list, or nothing. -/
theorem returns_pushElements {args : List RespValue} {key : Bytes} {left : Bool} (hkey : ArgString args 1 key)
    (hstrings : ∀ a ∈ args.drop 2, a.IsString)
    (hlist : ∀ v, s.db.valueAt (s.clock 0) key = some v → ∃ list, v = .list list) :
    (pushElements args left).Returns s (Pushed args) := by
  refine fun r t hrun => ?_
  have hpost : (pushElements args left).Post s fun r t => ∃ x, r = .ok x ∧ Pushed args x t := by
    refine post_argString_bind (fun key' harg => ?_) fun hno => absurd hkey (hno key)
    obtain rfl := hkey.unique harg
    refine post_objectForAdd_bind (fun obj t _ hnew hobj => ?_) fun obj t _ hshown hobj => ?_
    · simp only [hnew]
      exact returns_pushed hkey hstrings hnew hobj left
    · obtain ⟨list, hvalue⟩ := hlist _ hshown
      simp only [hvalue]
      exact returns_pushed hkey hstrings hvalue hobj left
  exact hpost r t hrun

/-- A push onto a key that shows something else. -/
theorem post_pushElements_wrongType {args : List RespValue} {key : Bytes} {left : Bool} {v : Value S}
    (hkey : ArgString args 1 key) (hv : s.db.valueAt (s.clock 0) key = some v) (hno : ∀ list, v ≠ .list list) :
    (pushElements args left).Post s fun r t => s.OnlyExpires t ∧ r = .ok (wrongType, none) := by
  refine post_argString_bind (fun key' harg => ?_) fun hnone => absurd hkey (hnone key)
  obtain rfl := hkey.unique harg
  refine post_objectForAdd_bind (fun obj t hnone => by cases hv.symm.trans hnone) fun obj t ht hshown _ => ?_
  obtain rfl := Option.some.inj (hv.symm.trans hshown)
  split
  · next list hlist => exact absurd hlist (hno list)
  · exact (Program.post_pure ..).mpr ⟨ht, rfl⟩

/-- A blocking pop tries one key after another. By induction on the keys. -/
theorem allOrNothing_popFirst (left : Bool) (keys : List Bytes) : ∀ s : DbState S, (popFirst left keys).Post s
    (AllOrNothing (fun x _ => ∃ reply, x = some reply ∧ ¬IsError reply) s) := by
  induction keys with
  | nil => exact fun s => (Program.post_pure ..).mpr .unchanged
  | cons key keys ih =>
    intro s
    -- a key without a list to pop from, and the others are looked at
    have hrest {t : DbState S} (ht : s.OnlyExpires t) : (popFirst left keys).Post t
        (AllOrNothing (fun x _ => ∃ reply, x = some reply ∧ ¬IsError reply) s) := (ih t).mono fun _ _ => .after ht
    refine post_getObject_bind (fun t ht _ => hrest ht) fun obj t ht _ _ => ?_
    dsimp only
    split
    · split
      · exact hrest ht
      · split
        · refine post_of_returns ?_
          have hreply (val : Bytes) : ¬IsError (bulkStringArray [key, val]) := by
            simp [IsError, bulkStringArray, arrayHeader]
          rw [Program.returns_bind]
          refine (DbM.returns_call t _).mpr ?_
          split
          · rw [Program.returns_bind]
            exact (DbM.returns_call _ _).mpr ((Program.returns_pure ..).mpr ⟨_, rfl, hreply _⟩)
          · exact (Program.returns_pure ..).mpr ⟨_, rfl, hreply _⟩
        · exact hrest ht
    · exact hrest ht

/-- What a blocking pop may come to, where it is not refused. -/
def PopOutcome.Good {args : List RespValue} : PopOutcome args → Prop
  | .reply data => Accepted args data
  | .block _ _ _ => ∀ a ∈ args.drop 1, a.IsString

theorem allOrNothing_bpopGeneric (args : List RespValue) (left : Bool) :
    (bpopGeneric args left).Post s (AllOrNothing (fun x _ => x.Good) s) := by
  unfold bpopGeneric
  split
  · exact (Program.post_undefined ..).mpr trivial
  · next last hlast =>
    split
    · exact (Program.post_pure ..).mpr .unchanged
    · next timeout htimeout =>
      split
      · exact (Program.post_pure ..).mpr .unchanged
      · split
        · exact (Program.post_raise ..).mpr .unchanged
        · next keys hkeys =>
          have hstrings := isString_of_blocking hlast htimeout hkeys
          rw [Program.post_bind]
          refine (allOrNothing_popFirst left keys s).mono fun r t h => ?_
          -- nothing could be popped, or a reply has been made
          rcases h with ht | ⟨_, rfl, reply, rfl, hreply⟩
          · rcases r with e | _ | reply
            · exact .nothing ht
            · exact (Program.post_pure ..).mpr (.nothing ht)
            · exact (Program.post_pure ..).mpr (.nothing ht)
          · exact (Program.post_pure ..).mpr (.inr ⟨_, rfl, hreply, hstrings⟩)

end Programs

end RedisDb
