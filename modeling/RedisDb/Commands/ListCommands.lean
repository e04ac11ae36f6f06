import RedisDb.Commands.StringCommands
import RedisDb.Storage.LinkedListInv

/-!
# List commands

The handlers of `list_commands.cpp`, as far as they work on the database. What a push does besides is
to wake a client that waits for the key, and what a blocking pop does where it finds nothing is to
block its client; both are left to the server, so these handlers return what is to be done.
-/

namespace RedisDb

open RespSerializer

variable {S : Type} [Platform]

/-! ### Pushing -/

/-- The loop of `pushGeneric`: every element is in the list before the next argument is read. -/
def pushLoop (key : Bytes) (left : Bool) (obj : RedisObject S) :
    LinkedList → List RespValue → DbM S LinkedList
  | list, [] => return list
  | list, arg :: rest => do
    let value ← .ofExcept arg.asString
    let list := if left then list.pushFront value else list.pushBack value
    DbM.putObject key { obj with value := .list list }
    pushLoop key left obj list rest

/-- The first part of `pushGeneric`: the reply, and the key on which a client is to be woken, if
`pushed`, an `int` that has counted the values, is positive. -/
def pushElements (args : List RespValue) (left : Bool) : DbM S (Bytes × Option Bytes) := do
  let key ← argString args 1
  let obj ← DbM.objectForAdd key (.list .new)
  match obj.value with
  | .list list =>
    let list ← pushLoop key left obj list (args.drop 2)
    return (integer list.size, if 0 < asInt (args.length - 2) then some key else none)
  | _ => return (wrongType, none)

/-! ### Popping -/

/-- `popFront` or `popBack`. -/
def LinkedList.pop (left : Bool) (list : LinkedList) : Option Bytes × LinkedList :=
  if left then list.popFront else list.popBack

omit [Platform] in
/-- `popFront` and `popBack` answer the element at their end, and take it off. -/
theorem LinkedList.Holds.popped {list : LinkedList} {xs : List Bytes} (h : list.Holds xs) (left : Bool) :
    (list.pop left).1 = (if left then xs.head? else xs.getLast?) ∧
      (list.pop left).2.Holds (if left then xs.tail else xs.dropLast) := by
  cases left with
  | true => exact h.popFront
  | false => exact h.popBack

/-- `popGeneric`. -/
def popGeneric (args : List RespValue) (left : Bool) : DbM S Bytes := do
  let key ← argString args 1
  match ← DbM.getObjectForWrite key with
  | none => return nullBulkString
  | some obj =>
    match obj.value with
    | .list list =>
      match list.pop left with
      | (some val, list) =>
        DbM.putObject key { obj with value := .list list }
        if list.isEmpty then
          let _ ← DbM.del key
        return bulkString val
      | (none, _) => return nullBulkString
    | _ => return wrongType

/-- `lpopCommand`. -/
def lpopCommand : DatabaseCommand S := fun args => popGeneric args true

/-- `rpopCommand`. -/
def rpopCommand : DatabaseCommand S := fun args => popGeneric args false

/-- What a blocking pop comes to: a reply, or the keys on which the client is to wait, when all
arguments behind the name have been read as strings. -/
inductive PopOutcome (args : List RespValue) where
  | reply (data : Bytes)
  | block (keys : List Bytes) (timeout : ℤ) (strings : ∀ a ∈ args.drop 1, a.IsString)

/-- The loop of `bpopGeneric` over the keys: the reply from the first list with an element. -/
def popFirst (left : Bool) : List Bytes → DbM S (Option Bytes)
  | [] => return none
  | key :: keys => do
    match ← DbM.getObjectForWrite key with
    | none => popFirst left keys
    | some obj =>
      match obj.value with
      | .list list =>
        if list.isEmpty then popFirst left keys
        else
          match list.pop left with
          | (some val, list) =>
            DbM.putObject key { obj with value := .list list }
            if list.isEmpty then
              let _ ← DbM.del key
            return some (bulkStringArray [key, val])
          | (none, _) => popFirst left keys
      | _ => popFirst left keys

/-- The arguments of `bpopGeneric` between the name and the timeout. -/
def blockingKeys (args : List RespValue) : List RespValue := (args.drop 1).dropLast

omit [Platform] in
/-- The arguments behind the name are the keys and the timeout. -/
theorem isString_of_blocking {args : List RespValue} {last : RespValue} {keys : List Bytes}
    {α : Type} {sto : Bytes → Except Exn α} {timeout : α} (hlast : args.getLast? = some last)
    (htimeout : converted sto last = some timeout)
    (hkeys : (blockingKeys args).mapM RespValue.asString = .ok keys) :
    ∀ a ∈ args.drop 1, a.IsString := by
  intro a ha
  have hne : args.drop 1 ≠ [] := List.ne_nil_of_mem ha
  have hdrop : (args.drop 1).getLast hne = last := by
    have := List.getLast?_eq_some_getLast (List.ne_nil_of_mem (List.mem_of_mem_drop ha))
    rw [hlast] at this
    rw [List.getLast_drop]
    exact (Option.some.inj this).symm
  rw [← List.dropLast_append_getLast hne, List.mem_append, List.mem_singleton, hdrop] at ha
  rcases ha with ha | rfl
  · exact RespValue.isString_of_mapM hkeys a ha
  · exact isString_of_converted htimeout

/-- `bpopGeneric`, up to the call of `blockClient`. -/
def bpopGeneric (args : List RespValue) (left : Bool) : DbM S (PopOutcome args) :=
  match hlast : args.getLast? with
  | none => .undefined
  | some last =>
    match htimeout : converted stoll last with
    | none => return .reply (error (str "timeout is not an integer or out of range"))
    | some timeout =>
      if timeout < 0 then return .reply (error (str "timeout is negative"))
      else
        match hkeys : (blockingKeys args).mapM RespValue.asString with
        | .error e => .raise e
        | .ok keys => do
          match ← popFirst left keys with
          | some reply => return .reply reply
          | none =>
            return .block keys (asInt64 (timeout * 1000)) (isString_of_blocking hlast htimeout hkeys)

/-! ### Reading -/

/-- `lrangeCommand`. -/
def lrangeCommand : DatabaseCommand S := fun args => do
  let key ← argString args 1
  match ← argConverted stoi args 2, ← argConverted stoi args 3 with
  | some start, some stop =>
    match ← DbM.getObject key with
    | none => return emptyArray
    | some obj =>
      match obj.value with
      | .list list => return bulkStringArray (list.range start stop)
      | _ => return wrongType
  | _, _ => return error (str "value is not an integer or out of range")

/-- `llenCommand`. -/
def llenCommand : DatabaseCommand S := fun args => do
  let key ← argString args 1
  match ← DbM.getObject key with
  | none => return integer 0
  | some obj =>
    match obj.value with
    | .list list => return integer list.size
    | _ => return wrongType

end RedisDb
