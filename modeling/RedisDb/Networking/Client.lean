import RedisDb.Lib.Index
import RedisDb.Networking.ClientInput
import RedisDb.Storage.Database

/-!
# `Client`

The state of a connection. A client is named by its key in the table of the server, which stands for
its address and for its socket alike.
-/

namespace RedisDb

/-- `ClientFlag`. -/
inductive ClientFlag where
  | multi | dirtyExec | slave | master | pubsub | closeAsap | blocked
deriving DecidableEq, Repr

/-- `Client`. -/
structure Client where
  inputBuffer : Bytes := []
  outputBuffer : Bytes := []
  outputPos : ℕ := 0
  flags : ClientFlag → Bool := fun _ => false
  selectedDb : ℤ := 0
  /-- `lastInteraction_`, in milliseconds of the steady clock. -/
  lastInteraction : ℤ := 0
  transactionQueue : List (List RespValue) := []
  watchedKeys : UnorderedSet Bytes := ∅
  pubsubChannels : UnorderedSet Bytes := ∅
  pubsubPatterns : UnorderedSet Bytes := ∅
  blockedKeys : List Bytes := []
  blockTimeout : ℤ := 0
  blockTarget : Bytes := []
  blockCmd : RespValue := .null

namespace Client

variable (cl : Client)

/-- `hasFlag`. -/
def hasFlag (flag : ClientFlag) : Bool := cl.flags flag

/-- `setFlag`. -/
def setFlag (flag : ClientFlag) : Client :=
  { cl with flags := Function.update cl.flags flag true }

/-- `clearFlag`. -/
def clearFlag (flag : ClientFlag) : Client :=
  { cl with flags := Function.update cl.flags flag false }

/-- `hasPendingOutput`. -/
def hasPendingOutput : Bool := cl.outputPos < cl.outputBuffer.length

/-- `addReply`. -/
def addReply (data : Bytes) : Client := { cl with outputBuffer := cl.outputBuffer ++ data }

/-- `clearTransaction`. -/
def clearTransaction : Client :=
  ({ cl with transactionQueue := [] }.clearFlag .multi).clearFlag .dirtyExec

/-- `clearBlockState`. -/
def clearBlockState : Client :=
  { cl with blockedKeys := [], blockTimeout := 0, blockTarget := [], blockCmd := .null }.clearFlag
    .blocked

/-- The number of subscriptions that the replies to them show. -/
def subscriptions : ℕ := cl.pubsubChannels.size + cl.pubsubPatterns.size

@[simp] theorem hasFlag_setFlag (flag f : ClientFlag) :
    (cl.setFlag flag).hasFlag f = if f = flag then true else cl.hasFlag f := by
  simp only [hasFlag, setFlag, Function.update_apply]

@[simp] theorem hasFlag_clearFlag (flag f : ClientFlag) :
    (cl.clearFlag flag).hasFlag f = if f = flag then false else cl.hasFlag f := by
  simp only [hasFlag, clearFlag, Function.update_apply]

@[simp] theorem hasFlag_addReply (data : Bytes) (f : ClientFlag) :
    (cl.addReply data).hasFlag f = cl.hasFlag f := rfl

theorem hasFlag_clearTransaction (f : ClientFlag) :
    cl.clearTransaction.hasFlag f = if f = .multi ∨ f = .dirtyExec then false else cl.hasFlag f := by
  rw [clearTransaction, hasFlag_clearFlag, hasFlag_clearFlag]
  by_cases h : f = .dirtyExec
  · rw [if_pos h, if_pos (Or.inr h)]
  · by_cases h' : f = .multi
    · rw [if_neg h, if_pos h', if_pos (Or.inl h')]
    · rw [if_neg h, if_neg h', if_neg (not_or.mpr ⟨h', h⟩)]
      rfl

end Client

end RedisDb
