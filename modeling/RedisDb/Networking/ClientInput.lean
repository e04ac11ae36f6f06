import RedisDb.Protocol.ParserStable

/-!
# The input buffer of a client

What a connection does with the bytes it reads: `Client::readFromSocket` appends them to the input
buffer, and `Server::processClientInput` parses the buffer and removes what the parser consumed
before it runs the commands.

The reads of a socket cut the byte stream at arbitrary places. `readInputs_eq_parse` says that the
cuts cannot be told from the outcome: the commands delivered over all reads are those of one parse
of the whole stream, and the bytes left in the buffer are those it does not consume.
-/

namespace RedisDb

open RespParser Incremental

variable (reserve : Reserve)

/-- `Client::consumeInput`. -/
def consumeInput (inputBuffer : Bytes) (bytes : ℕ) : Bytes :=
  if inputBuffer.length ≤ bytes then [] else inputBuffer.drop bytes

/-- `Client::readFromSocket` and the first half of `Server::processClientInput`: the commands a read
delivers, and the input buffer it leaves. -/
def readInput (inputBuffer piece : Bytes) : Except Exn (List RespValue × Bytes) :=
  match parse reserve (inputBuffer ++ piece) with
  | .error e => .error e
  | .ok result =>
    .ok (result.commands,
      if 0 < result.bytesConsumed then consumeInput (inputBuffer ++ piece) result.bytesConsumed
      else inputBuffer ++ piece)

/-- A sequence of reads: all commands delivered, and the buffer in the end. -/
def readInputs : Bytes → List Bytes → Except Exn (List RespValue × Bytes)
  | inputBuffer, [] => .ok ([], inputBuffer)
  | inputBuffer, piece :: pieces =>
    match readInput reserve inputBuffer piece with
    | .error e => .error e
    | .ok (commands, inputBuffer') =>
      match readInputs inputBuffer' pieces with
      | .error e => .error e
      | .ok (commands', inputBuffer'') => .ok (commands ++ commands', inputBuffer'')

variable {reserve}

@[simp] theorem consumeInput_eq (inputBuffer : Bytes) (bytes : ℕ) :
    consumeInput inputBuffer bytes = inputBuffer.drop bytes := by
  unfold consumeInput
  split
  · next h => rw [List.drop_eq_nil_of_le h]
  · rfl

/-- A read drains the buffer. -/
theorem readInput_eq_drain (inputBuffer piece : Bytes) :
    readInput reserve inputBuffer piece = drain (frame reserve) (inputBuffer ++ piece) := by
  unfold readInput
  rw [parse_eq_drain]
  cases hd : drain (frame reserve) (inputBuffer ++ piece) with
  | error e => rfl
  | ok x =>
    obtain ⟨commands, rest⟩ := x
    obtain ⟨used, hused⟩ := isIncremental_frame.drain_suffix hd
    have hlen : (inputBuffer ++ piece).length - rest.length = used.length := by
      rw [← hused, List.length_append, Nat.add_sub_cancel]
    have hdrop : (inputBuffer ++ piece).drop used.length = rest := by
      rw [← hused, List.drop_left]
    simp only [Except.map, hlen, consumeInput_eq, hdrop]
    split
    · rfl
    · next h =>
      -- nothing has been consumed, and the buffer is left as it is
      have hzero : used = [] := List.length_eq_zero_iff.mp (by omega)
      rw [← hused, hzero, List.nil_append]

theorem readInputs_eq_feed (inputBuffer : Bytes) (pieces : List Bytes) :
    readInputs reserve inputBuffer pieces = feed (frame reserve) inputBuffer pieces := by
  induction pieces generalizing inputBuffer with
  | nil => rfl
  | cons piece pieces ih =>
    simp only [readInputs, feed, readInput_eq_drain]
    cases drain (frame reserve) (inputBuffer ++ piece) with
    | error e => rfl
    | ok x =>
      simp only [ih]
      cases feed (frame reserve) x.2 pieces <;> rfl

/-- **Chunking invariance of the request stream.** However a byte stream is cut into reads, the commands delivered
over all reads are exactly those of a single parse of the stream, the bytes left in the buffer are exactly those the
single parse does not consume, and parsing these again yields no command and consumes nothing. Should an allocation
throw, the reads end in the exception in which the single parse ends. The reading of one frame is incremental: an
answer other than none is the answer on every longer text (`IsIncremental`). So reading in pieces drains the same
frames as reading at once. -/
theorem readInputs_eq_parse (reserve : Reserve) (pieces : List Bytes) :
    readInputs reserve [] pieces =
        (parse reserve pieces.flatten).map
          (fun result => (result.commands, pieces.flatten.drop result.bytesConsumed)) ∧
      ∀ result, parse reserve pieces.flatten = .ok result →
        parse reserve (pieces.flatten.drop result.bytesConsumed) = .ok ⟨[], 0⟩ := by
  rw [readInputs_eq_feed, isIncremental_frame.feed_eq_drain, parse_eq_drain]
  cases hd : drain (frame reserve) pieces.flatten with
  | error e => exact ⟨rfl, fun _ h => by cases h⟩
  | ok x =>
    obtain ⟨commands, rest⟩ := x
    obtain ⟨used, hused⟩ := isIncremental_frame.drain_suffix hd
    -- what is not consumed is what is left
    have hdrop : pieces.flatten.drop (pieces.flatten.length - rest.length) = rest := by
      rw [← hused, List.length_append, Nat.add_sub_cancel, List.drop_left]
    constructor
    · simp only [Except.map, hdrop]
    · rintro result h
      cases h
      rw [hdrop, parse_eq_drain, isIncremental_frame.drain_rest hd]
      simp [Except.map]

end RedisDb
