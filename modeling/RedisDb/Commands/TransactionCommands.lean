import RedisDb.Server.ServerProgram

/-!
# Transactions

The handlers of `transaction_commands.cpp`. `EXEC` runs the commands that have been queued by calling
their handlers itself; the call is a parameter here, since the handlers are those of the registry
that `EXEC` belongs to.
-/

namespace RedisDb

open RespSerializer EffectM

variable {S : Type} [Platform]

/-- The handler of `MULTI`. -/
def multiCommand : Handler S := fun c _ => do
  let cl ← client c
  if cl.hasFlag .multi then addReply (error (str "ERR MULTI calls can not be nested"))
  else
    modifyClient c (·.setFlag .multi) fun cl => cl.sameTables_setFlag (by decide) (by decide) (by decide)
    addReply (simpleString (str "OK"))

/-- The handler of `EXEC`, where `runQueued` runs one command of the queue. -/
def execCommand (runQueued : Handler S) : Handler S := fun c _ => do
  let cl ← client c
  if !cl.hasFlag .multi then addReply (error (str "ERR EXEC without MULTI"))
  else
    modifyClient c (·.clearTransaction) Client.sameTables_clearTransaction
    if cl.hasFlag .dirtyExec then addReply nullArray
    else
      addReply (arrayHeader cl.transactionQueue.length)
      forM cl.transactionQueue (runQueued c)

/-- The handler of `DISCARD`. -/
def discardCommand : Handler S := fun c _ => do
  let cl ← client c
  if !cl.hasFlag .multi then addReply (error (str "ERR DISCARD without MULTI"))
  else
    call (Server.unwatch c) fun _ _ => .unwatch
    modifyClient c (·.clearTransaction) Client.sameTables_clearTransaction
    addReply (simpleString (str "OK"))

/-- The handler of `WATCH`. -/
def watchCommand : Handler S := fun c args => do
  let cl ← client c
  if cl.hasFlag .multi then addReply (error (str "ERR WATCH inside MULTI is not allowed"))
  else
    let i ← .read (Server.databaseIndex cl.selectedDb)
    forM (args.drop 1) fun arg => do
      let key ← .ofExcept arg.asString
      call (Server.watch c i key) fun _ _ => .watch
    addReply (simpleString (str "OK"))

/-- The handler of `UNWATCH`. -/
def unwatchCommand : Handler S := fun c _ => do
  call (Server.unwatch c) fun _ _ => .unwatch
  modifyClient c (·.clearFlag .dirtyExec) fun cl => cl.sameTables_clearFlag (by decide) (by decide) (by decide)
  addReply (simpleString (str "OK"))

end RedisDb
