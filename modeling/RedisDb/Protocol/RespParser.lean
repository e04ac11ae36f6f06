import RedisDb.Protocol.RespTypes

/-!
# The RESP parser

`RespParser` as the source computes it: a cursor `pos` into a buffer, moved past a value on success
and put back where it was on failure. Every parser answers with the value, if there is one, and the
cursor. What the loops of the source do at increasing positions is written as recursion on the
buffer from that position on.

`elements.reserve(count)` allocates on the word of a header, so it is where the parser can throw;
`Reserve` says what it throws for each count.

`parseValue` and `parseArray` call each other, one array level at a time. `parseValueFuel` bounds
the depth, `parseValue` gives it as much as the buffer can nest, and `parseValue_eq` is the recursion
equation of the source, with no bound in it.
-/

namespace RedisDb

/-- What `std::vector::reserve` throws when asked for a number of elements, if it throws. -/
abbrev Reserve := ℕ → Option Exn

namespace RespParser

/-- The outcome of a parser: the value read, if any, and the cursor. -/
abbrev Out := Except Exn (Option RespValue × ℕ)

/-! ### Lines -/

/-- Offset of the first `"\r\n"`. -/
def crlfOffset : Bytes → Option ℕ
  | a :: b :: t => if a = CR ∧ b = LF then some 0 else (crlfOffset (b :: t)).map (· + 1)
  | _ => none

/-- `findCRLF`, with `none` for `NPOS`. -/
def findCRLF (buffer : Bytes) (pos : ℕ) : Option ℕ :=
  (crlfOffset (buffer.drop pos)).map (pos + ·)

/-- `readLine`: the line at the cursor, and the cursor behind its terminator. -/
def readLine (buffer : Bytes) (pos : ℕ) : Option (Bytes × ℕ) :=
  match findCRLF buffer pos with
  | none => none
  | some crlfPos => some ((buffer.drop pos).take (crlfPos - pos), crlfPos + 2)

/-! ### Inline commands -/

/-- The separators of an inline command. -/
def isBlank (b : UInt8) : Bool := b = 32 || b = 9

/-- The arguments of an inline command: quoted by `"` or by `'`, or a run of non-blanks. A missing
closing quote is taken to be at the end of the line. Each round uses at least one byte. -/
def inlineArgsFuel : ℕ → Bytes → List Bytes
  | 0, _ => []
  | fuel + 1, content =>
    match content.dropWhile isBlank with
    | [] => []
    | c :: t =>
      if c = 34 then
        (t.takeWhile (· ≠ 34)) :: inlineArgsFuel fuel ((t.dropWhile (· ≠ 34)).drop 1)
      else if c = 39 then
        (t.takeWhile (· ≠ 39)) :: inlineArgsFuel fuel ((t.dropWhile (· ≠ 39)).drop 1)
      else
        ((c :: t).takeWhile (! isBlank ·)) ::
          inlineArgsFuel fuel ((c :: t).dropWhile (! isBlank ·))

/-- The tokenizer loop of `parseInline`. -/
def inlineArgs (content : Bytes) : List Bytes := inlineArgsFuel content.length content

/-- `parseInline`. -/
def parseInline (buffer : Bytes) (pos : ℕ) : Option RespValue × ℕ :=
  match readLine buffer pos with
  | none => (none, pos)
  | some (content, pos') =>
    if content = [] then (some (.array []), pos')
    else (some (.array ((inlineArgs content).map .bulkString)), pos')

/-! ### Typed values -/

/-- The number of a header line: `std::from_chars`, and `std::stoll` where that fails. -/
def headerNumber (line : Bytes) : Option ℤ :=
  match fromChars line with
  | .ok (value, _) => some value
  | .error _ =>
    match stoll line with
    | .ok value => some value
    | .error _ => none

/-- `parseSimpleString`. -/
def parseSimpleString (buffer : Bytes) (pos : ℕ) : Option RespValue × ℕ :=
  match readLine buffer (pos + 1) with
  | none => (none, pos)
  | some (line, pos') => (some (.simpleString line), pos')

/-- `parseError`. -/
def parseError (buffer : Bytes) (pos : ℕ) : Option RespValue × ℕ :=
  match readLine buffer (pos + 1) with
  | none => (none, pos)
  | some (line, pos') => (some (.error line), pos')

/-- `parseInteger`. -/
def parseInteger (buffer : Bytes) (pos : ℕ) : Option RespValue × ℕ :=
  match readLine buffer (pos + 1) with
  | none => (none, pos)
  | some (line, pos') =>
    match headerNumber line with
    | none => (none, pos)
    | some value => (some (.integer (Int64.ofInt value)), pos')

/-- `parseBulkString`. -/
def parseBulkString (buffer : Bytes) (pos : ℕ) : Option RespValue × ℕ :=
  match readLine buffer (pos + 1) with
  | none => (none, pos)
  | some (line, pos') =>
    match headerNumber line with
    | none => (none, pos)
    | some length =>
      if length = -1 then (some .null, pos')
      else if length < 0 then (none, pos)
      else if buffer.length < pos' + length.toNat + 2 then (none, pos)
      else if buffer[pos' + length.toNat]? ≠ some CR ∨
          buffer[pos' + length.toNat + 1]? ≠ some LF then (none, pos)
      else
        (some (.bulkString ((buffer.drop pos').take length.toNat)), pos' + length.toNat + 2)

/-- The element loop of `parseArray`, over the parser of one element. -/
def parseElements (parseValue : Bytes → ℕ → Out) (buffer : Bytes) :
    ℕ → ℕ → Except Exn (Option (List RespValue) × ℕ)
  | 0, pos => .ok (some [], pos)
  | count + 1, pos =>
    match parseValue buffer pos with
    | .error e => .error e
    | .ok (none, pos') => .ok (none, pos')
    | .ok (some element, pos') =>
      match parseElements parseValue buffer count pos' with
      | .error e => .error e
      | .ok (none, pos'') => .ok (none, pos'')
      | .ok (some elements, pos'') => .ok (some (element :: elements), pos'')

section

variable (reserve : Reserve)

/-- `parseArray`, over the parser of one element. -/
def parseArray (parseValue : Bytes → ℕ → Out) (buffer : Bytes) (pos : ℕ) : Out :=
  match readLine buffer (pos + 1) with
  | none => .ok (none, pos)
  | some (line, pos') =>
    match headerNumber line with
    | none => .ok (none, pos)
    | some count =>
      if count = -1 then .ok (some .null, pos')
      else if count < 0 then .ok (none, pos)
      else
        match reserve count.toNat with
        | some e => .error e
        | none =>
          match parseElements parseValue buffer count.toNat pos' with
          | .error e => .error e
          | .ok (none, _) => .ok (none, pos)
          | .ok (some elements, pos'') => .ok (some (.array elements), pos'')

/-- The `switch` of `parseValue`, over the parser of an array's elements. -/
def parseByType (parseValue : Bytes → ℕ → Out) (buffer : Bytes) (pos : ℕ) : Out :=
  match buffer[pos]? with
  | none => .ok (none, pos)
  | some 43 => .ok (parseSimpleString buffer pos)
  | some 45 => .ok (parseError buffer pos)
  | some 58 => .ok (parseInteger buffer pos)
  | some 36 => .ok (parseBulkString buffer pos)
  | some 42 => parseArray reserve parseValue buffer pos
  | some _ => .ok (parseInline buffer pos)

/-- `parseValue` with a bound on the nesting depth. -/
def parseValueFuel : ℕ → Bytes → ℕ → Out
  | 0, _, pos => .ok (none, pos)
  | fuel + 1, buffer, pos => parseByType reserve (parseValueFuel fuel) buffer pos

/-- `parseValue`. Each array level uses bytes of the buffer, so its length bounds the depth. -/
def parseValue (buffer : Bytes) (pos : ℕ) : Out :=
  parseValueFuel reserve (buffer.length + 1) buffer pos

/-! ### The command loop -/

/-- `ParseResult`. -/
structure ParseResult where
  commands : List RespValue
  bytesConsumed : ℕ

/-- One round of the loop of `parse`: a typed value, or an inline command. -/
def parseCommand (buffer : Bytes) (pos : ℕ) : Out :=
  match buffer[pos]? with
  | none => .ok (none, pos)
  | some firstByte =>
    if firstByte = 42 ∨ firstByte = 43 ∨ firstByte = 45 ∨ firstByte = 58 ∨ firstByte = 36 then
      parseValue reserve buffer pos
    else .ok (parseInline buffer pos)

/-- The loop of `parse` from a cursor on, the result so far in hand. -/
def parseLoop (buffer : Bytes) : ℕ → ℕ → ParseResult → Except Exn ParseResult
  | 0, _, result => .ok result
  | fuel + 1, pos, result =>
    if pos < buffer.length then
      match parseCommand reserve buffer pos with
      | .error e => .error e
      | .ok (none, _) => .ok result
      | .ok (some value, pos') =>
        parseLoop buffer fuel pos'
          { commands := result.commands ++ [value], bytesConsumed := pos' }
    else .ok result

/-- `parse`: as many commands as the buffer holds. Each uses at least one byte. -/
def parse (buffer : Bytes) : Except Exn ParseResult :=
  parseLoop reserve buffer buffer.length 0 { commands := [], bytesConsumed := 0 }

end

end RespParser

end RedisDb
