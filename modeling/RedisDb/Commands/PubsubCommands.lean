import RedisDb.Server.ServerProgram

/-!
# Publish and subscribe

The handlers of `pubsub_commands.cpp`, and `publishMessage`.
-/

namespace RedisDb

open RespSerializer EffectM

variable {S : Type} [Platform] {c : ClientId}

/-- The reply to a change of one subscription. -/
def subscriptionReply (word channel : Bytes) (count : ℕ) : Bytes :=
  arrayHeader 3 ++ bulkString word ++ bulkString channel ++ integer count

/-- The body of the loops of the four handlers: change a subscription and reply. -/
def changeSubscription (word : Bytes) (method : Bytes → ServerM S c Unit) (channel : Bytes) :
    ServerM S c Unit := do
  method channel
  let cl ← client c
  addReply (subscriptionReply word channel cl.subscriptions)

/-- `SUBSCRIBE` and `PSUBSCRIBE`. -/
def subscribeWith (word : Bytes) (method : Bytes → ServerM S c Unit) (args : List RespValue) :
    ServerM S c Unit := do
  modifyClient c (·.setFlag .pubsub) fun cl => cl.sameTables_setFlag (by decide) (by decide) (by decide)
  forM (args.drop 1) fun arg => do
    changeSubscription word method (← .ofExcept arg.asString)

/-- `UNSUBSCRIBE` and `PUNSUBSCRIBE`, where `all` are the subscriptions of a client. -/
def unsubscribeWith (word : Bytes) (method : Bytes → ServerM S c Unit)
    (all : Client → UnorderedSet Bytes) (args : List RespValue) : ServerM S c Unit := do
  if args.length = 1 then
    let cl ← client c
    forM (all cl).keys (changeSubscription word method)
  else
    forM (args.drop 1) fun arg => do
      changeSubscription word method (← .ofExcept arg.asString)
  let cl ← client c
  if cl.pubsubChannels.keys = [] ∧ cl.pubsubPatterns.keys = [] then
    modifyClient c (·.clearFlag .pubsub) fun cl => cl.sameTables_clearFlag (by decide) (by decide) (by decide)

/-- The handler of `SUBSCRIBE`. -/
def subscribeCommand : Handler S := fun c args =>
  subscribeWith (str "subscribe")
    (fun channel => call (Server.subscribeChannel c channel) fun _ _ => .subscribe) args

/-- The handler of `UNSUBSCRIBE`. -/
def unsubscribeCommand : Handler S := fun c args =>
  unsubscribeWith (str "unsubscribe")
    (fun channel => call (Server.unsubscribeChannel c channel) fun _ _ => .unsubscribe)
    Client.pubsubChannels args

/-- The handler of `PSUBSCRIBE`. -/
def psubscribeCommand : Handler S := fun c args =>
  subscribeWith (str "psubscribe")
    (fun pattern => call (Server.psubscribePattern c pattern) fun _ _ => .psubscribe) args

/-- The handler of `PUNSUBSCRIBE`. -/
def punsubscribeCommand : Handler S := fun c args =>
  unsubscribeWith (str "punsubscribe")
    (fun pattern => call (Server.punsubscribePattern c pattern) fun _ _ => .punsubscribe)
    Client.pubsubPatterns args

/-- The matcher of `publishMessage`: a pattern that ends in `*` matches what begins with the rest of
it, and any other pattern matches itself. -/
def patternMatches (pattern channel : Bytes) : Bool :=
  if pattern.getLast? = some 42 then
    channel.take (pattern.length - 1) = pattern.dropLast
  else pattern = channel

/-- A receiver of `publishMessage`. -/
def deliver (id : ClientId) (data : Bytes) : ServerM S c Unit :=
  call (Server.deliver id data) fun _ _ => .deliver

/-- `publishMessage`. The last byte of an empty pattern is not there to be looked at. -/
def publishMessage (channel message : Bytes) : ServerM S c ℤ := do
  let subscribers ← .read fun s => s.pubsubChannels.valuesAt channel
  forM subscribers fun id => deliver id (bulkStringArray [str "message", channel, message])
  let patterns ← .read fun s => s.pubsubPatterns
  if patterns.any (·.1 = []) then .undefined
  else
    let receivers := patterns.filter fun p => patternMatches p.1 channel
    forM receivers fun p =>
      deliver p.2 (bulkStringArray [str "pmessage", p.1, channel, message])
    return asInt (subscribers.length + receivers.length)

/-- The handler of `PUBLISH`. -/
def publishCommand : Handler S := fun _ args => do
  let channel ← argString args 1
  let message ← argString args 2
  addReply (integer (← publishMessage channel message))

end RedisDb
