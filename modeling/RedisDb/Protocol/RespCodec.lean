import RedisDb.Protocol.ParserStable
import RedisDb.Protocol.RespSerializer

/-!
# The RESP codec

`RespParser` inverts `RespSerializer`. Reading a serialized value returns the value and stops exactly
at its end, whatever follows (`parseValue_serialize`). A strict prefix of a serialized value is never
mistaken for one (`parseValue_of_strictPrefix`). Hence a log of commands that is cut at any byte yields
exactly the commands that lie wholly before the cut (`parse_take_log`).

The wire text does not determine every value. `Encodable` says which values it does determine: a text
with a line terminator inside cannot be told from two lines, and a length has to fit the `int64_t` that
a header is read as, which the size of every container does. It also says of each array in the value
that the parser gets the memory for its elements. That is all that is assumed of the allocator, so it may
refuse every other size.

The round trip is an induction over the nesting, one case for each factory of `RespValue`. The case of an
array carries the statement for its elements at every position of the buffer (`parseElements_serializeAll`),
which `parseValue_shift` reduces to position 0. For a strict prefix no second induction is needed: by
`parseValue_append` an answer on the prefix would be the answer on the whole text, whose end the prefix
does not reach. A log is read one entry at a time (`frame_entry`), by the rules of `IsIncremental`.
-/

namespace RedisDb
namespace RespParser

open RespSerializer Incremental

/-- The largest length a header can give, which is read as an `int64_t`. It is `PTRDIFF_MAX` as well, so
no container is longer. -/
def maxLength : ℕ := 2 ^ 63 - 1

section Encodable

variable (reserve : Reserve)

mutual

/-- The values that the wire text determines and the parser can build: a simple string or an error has no
line terminator inside, lengths are those a header can give, and for each array the allocator gives the
memory that `reserve` asks for. -/
def Encodable : RespValue → Prop
  | .simpleString s => ¬ CRLF <:+: s
  | .error msg => ¬ CRLF <:+: msg
  | .integer _ => True
  | .bulkString s => s.length ≤ maxLength
  | .array elements =>
    elements.length ≤ maxLength ∧ reserve elements.length = none ∧ EncodableAll elements
  | .null => True

/-- `Encodable` for every element. -/
def EncodableAll : List RespValue → Prop
  | [] => True
  | element :: elements => Encodable element ∧ EncodableAll elements

end

theorem encodableAll_iff {elements : List RespValue} :
    EncodableAll reserve elements ↔ ∀ v ∈ elements, Encodable reserve v := by
  induction elements with
  | nil => simp [EncodableAll]
  | cons v elements ih => simp [EncodableAll, ih]

end Encodable

/-! ### Header lines -/

/-- The first terminator behind a line without one is its own. -/
theorem crlfOffset_line {line : Bytes} (h : ¬ CRLF <:+: line) (rest : Bytes) :
    crlfOffset (line ++ CRLF ++ rest) = some line.length := by
  induction line with
  | nil => rfl
  | cons a line ih =>
    have hline : ¬ CRLF <:+: line := fun hi => h (hi.trans (List.suffix_cons a line).isInfix)
    have htail := ih hline
    cases line with
    | nil =>
      change (if a = CR ∧ CR = LF then some 0 else (crlfOffset (CRLF ++ rest)).map (· + 1)) = _
      rw [if_neg (by rintro ⟨-, h⟩; exact absurd h (by decide))]
      rfl
    | cons b t =>
      -- no line end in the line itself
      have hab : ¬ (a = CR ∧ b = LF) := by
        rintro ⟨rfl, rfl⟩
        exact h ⟨[], t, rfl⟩
      change (if a = CR ∧ b = LF then some 0
        else (crlfOffset (b :: t ++ CRLF ++ rest)).map (· + 1)) = _
      rw [if_neg hab, htail]
      rfl

/-- The line behind a type byte. -/
theorem readLine_header {line : Bytes} (h : ¬ CRLF <:+: line) (b : UInt8) (rest : Bytes) :
    readLine (b :: line ++ CRLF ++ rest) (0 + 1) = some (line, line.length + 3) := by
  rw [readLine_eq]
  change (crlfOffset (line ++ CRLF ++ rest)).map _ = _
  rw [crlfOffset_line h, Option.map_some]
  simp only [Nat.zero_add, List.cons_append, List.drop_succ_cons, List.drop_zero,
    List.append_assoc, List.take_left, Option.some.injEq, Prod.mk.injEq, true_and]
  omega

theorem crlf_not_infix_toText (i : ℤ) : ¬ CRLF <:+: toText i := fun h =>
  notMem_toText (Or.inl rfl) (h.subset (List.mem_cons_self : CR ∈ CRLF))

theorem headerNumber_toText {i : ℤ} (hi : InRange 64 i) : headerNumber (toText i) = some i := by
  unfold headerNumber
  rw [fromChars_toText hi]

/-- A container size is in the range of the header number. -/
theorem inRange_size {n : ℕ} (h : n ≤ maxLength) : InRange 64 (n : ℤ) :=
  InRange.natCast_of_lt (by unfold maxLength at h; omega)

theorem headerNumber_size {n : ℕ} (h : n ≤ maxLength) : headerNumber (toText n) = some (n : ℤ) :=
  headerNumber_toText (inRange_size h)

theorem int64_inRange (n : Int64) : InRange 64 n.toInt :=
  ⟨Int64.le_toInt n, Int64.toInt_lt n⟩

/-! ### The round trip -/

section RoundTrip

variable {reserve : Reserve}

theorem parseBulkString_bulkString {s : Bytes} (hs : s.length ≤ maxLength) (rest : Bytes) :
    parseBulkString (RespSerializer.bulkString s ++ rest) 0
      = (some (.bulkString s), (RespSerializer.bulkString s).length) := by
  have hsplit : RespSerializer.bulkString s ++ rest
      = (36 :: toText s.length ++ CRLF) ++ (s ++ (CRLF ++ rest)) := by
    simp [RespSerializer.bulkString]
  have hheader : (36 :: toText s.length ++ CRLF).length = (toText s.length).length + 3 := by
    simp [CRLF]
  -- the header line, which ends where the string begins
  have hline : readLine (RespSerializer.bulkString s ++ rest) (0 + 1)
      = some (toText s.length, (toText s.length).length + 3) := by
    rw [hsplit]
    exact readLine_header (crlf_not_infix_toText _) _ _
  have hlen : (RespSerializer.bulkString s).length
      = (toText s.length).length + 3 + s.length + 2 := by
    simp only [RespSerializer.bulkString, List.length_append, hheader]
    rfl
  have hdrop : ∀ i, (RespSerializer.bulkString s ++ rest).drop ((toText s.length).length + 3 + i)
      = (s ++ (CRLF ++ rest)).drop i := by
    intro i
    rw [hsplit, ← hheader, drop_length_add]
  -- positions behind the header are positions of what follows it
  have hget : ∀ i, (RespSerializer.bulkString s ++ rest)[(toText s.length).length + 3 + i]?
      = (s ++ (CRLF ++ rest))[i]? := by
    intro i
    rw [← List.head?_drop, hdrop, List.head?_drop]
  -- behind the string stand the two bytes that end it
  have hcr : (RespSerializer.bulkString s ++ rest)[(toText s.length).length + 3 + s.length]?
      = some CR := by
    rw [hget, List.getElem?_append_right le_rfl, Nat.sub_self]
    rfl
  have hlf : (RespSerializer.bulkString s ++ rest)[(toText s.length).length + 3 + s.length + 1]?
      = some LF := by
    rw [Nat.add_assoc _ s.length 1, hget, List.getElem?_append_right (Nat.le_add_right _ 1),
      Nat.add_sub_cancel_left]
    rfl
  have htake : ((RespSerializer.bulkString s ++ rest).drop ((toText s.length).length + 3)).take
      s.length = s := by
    rw [← Nat.add_zero ((toText s.length).length + 3), hdrop, List.drop_zero, List.take_left]
  unfold parseBulkString
  simp only [hline, headerNumber_size hs, Int.toNat_natCast]
  rw [if_neg (by omega), if_neg (by omega),
    if_neg (by rw [List.length_append, hlen]; omega), if_neg (by simp [hcr, hlf]), htake, hlen]

theorem parseValue_bulkString {s : Bytes} (hs : s.length ≤ maxLength) (rest : Bytes) :
    parseValue reserve (serialize (.bulkString s) ++ rest) 0
      = .ok (some (.bulkString s), (serialize (.bulkString s)).length) := by
  rw [parseValue_eq]
  change Except.ok (parseBulkString (serialize (.bulkString s) ++ rest) 0) = _
  rw [serialize, parseBulkString_bulkString hs]

/-- Reading the elements of an array behind any prefix, given the round trip of each. -/
theorem parseElements_serializeAll {elements : List RespValue}
    (h : ∀ v ∈ elements, ∀ rest,
      parseValue reserve (serialize v ++ rest) 0 = .ok (some v, (serialize v).length))
    (pre rest : Bytes) :
    parseElements (parseValue reserve) (pre ++ serializeAll elements ++ rest) elements.length
      pre.length = .ok (some elements, pre.length + (serializeAll elements).length) := by
  induction elements generalizing pre with
  | nil => rfl
  | cons v elements ih =>
    -- the element is read where it stands, behind what has been read
    have hv := @parseValue_shift reserve pre (serialize v ++ (serializeAll elements ++ rest)) 0
    rw [h v List.mem_cons_self, Nat.add_zero, shift_ok] at hv
    have hbuf : pre ++ serializeAll (v :: elements) ++ rest
        = pre ++ (serialize v ++ (serializeAll elements ++ rest)) := by
      simp [serializeAll]
    have hbuf' : pre ++ serializeAll (v :: elements) ++ rest
        = (pre ++ serialize v) ++ serializeAll elements ++ rest := by
      simp [serializeAll]
    have htail := ih (fun w hw => h w (List.mem_cons_of_mem _ hw)) (pre ++ serialize v)
    rw [← hbuf', List.length_append] at htail
    simp only [List.length_cons, parseElements]
    rw [hbuf, hv]
    simp only [← hbuf, htail]
    simp [serializeAll, Nat.add_assoc]

theorem parseValue_array {elements : List RespValue} (hlen : elements.length ≤ maxLength)
    (hres : reserve elements.length = none)
    (h : ∀ v ∈ elements, ∀ rest,
      parseValue reserve (serialize v ++ rest) 0 = .ok (some v, (serialize v).length))
    (rest : Bytes) :
    parseValue reserve (serialize (.array elements) ++ rest) 0
      = .ok (some (.array elements), (serialize (.array elements)).length) := by
  have hheader : (arrayHeader elements.length).length = (toText elements.length).length + 3 := by
    simp [arrayHeader, CRLF]
  -- the header is a line, which the number has no line end in
  have hline : readLine (serialize (.array elements) ++ rest) (0 + 1)
      = some (toText elements.length, (toText elements.length).length + 3) := by
    rw [serialize, arrayHeader, List.append_assoc]
    exact readLine_header (crlf_not_infix_toText _) _ _
  have helems := parseElements_serializeAll h (arrayHeader elements.length) rest
  rw [hheader] at helems
  rw [parseValue_eq]
  change parseArray reserve (parseValue reserve) (serialize (.array elements) ++ rest) 0 = _
  unfold parseArray
  simp only [hline, headerNumber_size hlen, Int.toNat_natCast, hres]
  rw [if_neg (by omega), if_neg (by omega)]
  simp only [serialize, helems, List.length_append, hheader]

/-- **Round trip.** Reading a serialized value, whatever follows it, returns the value and stops
exactly at its end. By induction over the nesting. -/
theorem parseValue_serialize {v : RespValue} (hv : Encodable reserve v) (rest : Bytes) :
    parseValue reserve (serialize v ++ rest) 0 = .ok (some v, (serialize v).length) := by
  induction v generalizing rest with
  | simpleString s =>
    rw [Encodable] at hv
    rw [parseValue_eq]
    change Except.ok (parseSimpleString (serialize (.simpleString s) ++ rest) 0) = _
    rw [serialize, parseSimpleString, readLine_header hv]
    simp [CRLF]
  | error msg =>
    rw [Encodable] at hv
    rw [parseValue_eq]
    change Except.ok (parseError (serialize (.error msg) ++ rest) 0) = _
    rw [serialize, parseError, readLine_header hv]
    simp [CRLF]
  | integer n =>
    rw [parseValue_eq]
    change Except.ok (parseInteger (serialize (.integer n) ++ rest) 0) = _
    rw [serialize, parseInteger, readLine_header (crlf_not_infix_toText _)]
    simp only [headerNumber_toText (int64_inRange n)]
    simp [CRLF]
  | bulkString s =>
    rw [Encodable] at hv
    exact parseValue_bulkString hv rest
  | array elements ih =>
    -- the header counts the elements, and each is parsed by the induction hypothesis
    rw [Encodable, encodableAll_iff] at hv
    exact parseValue_array hv.1 hv.2.1 (fun v hmem => ih v hmem (hv.2.2 v hmem)) rest
  | null =>
    -- null is written as a bulk string of length -1
    have htext : str "$-1\r\n" = 36 :: toText (-1) ++ CRLF := by decide
    have hline : readLine (str "$-1\r\n" ++ rest) (0 + 1) = some (toText (-1), 5) := by
      rw [htext, readLine_header (crlf_not_infix_toText _)]
      rfl
    rw [parseValue_eq]
    change Except.ok (parseBulkString (str "$-1\r\n" ++ rest) 0) = _
    unfold parseBulkString
    simp only [hline, headerNumber_toText (show InRange 64 (-1) by decide)]
    rfl

/-- **No false success on a truncated value.** -/
theorem parseValue_of_strictPrefix {v : RespValue} (hv : Encodable reserve v) {p : Bytes}
    (hp : p <+: serialize v) (hne : p ≠ serialize v) :
    parseValue reserve p 0 = .ok (none, 0) := by
  obtain ⟨t, ht⟩ := hp
  -- with the rest behind it the value is read, up to its end
  have hfull : parseValue reserve (p ++ t) 0 = .ok (some v, (serialize v).length) := by
    simpa [ht] using parseValue_serialize hv []
  have hshort : p.length < (serialize v).length := by
    rcases Nat.lt_or_ge p.length (serialize v).length with h | h
    · exact h
    · exact absurd (List.IsPrefix.eq_of_length_le ⟨t, ht⟩ h) hne
  cases hr : parseValue reserve p 0 with
  | error e =>
    have hset := parseValue_append t (show Settled (parseValue reserve p 0) by rw [hr]; simp)
    rw [hfull, hr] at hset
    cases hset
  | ok x =>
    obtain ⟨o, q⟩ := x
    cases o with
    | none => rw [parseValue_none hr]
    | some w =>
      have hset := parseValue_append t (show Settled (parseValue reserve p 0) by rw [hr]; simp)
      rw [hfull, hr] at hset
      obtain ⟨-, hq⟩ := Prod.mk.inj (Except.ok.inj hset)
      have := (parseValue_lt hr).2
      omega

end RoundTrip

/-! ### Command logs -/

/-- A log of commands, as `bulkStringArray` writes them. -/
def commandLog (commands : List (List Bytes)) : Bytes := commands.flatMap bulkStringArray

/-- The commands that lie wholly within the first `cut` bytes of their log. -/
def wholeCommands : List (List Bytes) → ℕ → List (List Bytes)
  | [], _ => []
  | command :: commands, cut =>
    if (bulkStringArray command).length ≤ cut then
      command :: wholeCommands commands (cut - (bulkStringArray command).length)
    else []

/-- A command as the parser returns it. -/
def commandValue (command : List Bytes) : RespValue := .array (command.map .bulkString)

/-- The parser can read a command back: its lengths are those a header can give, and the allocator gives
the memory for its arguments. -/
structure CommandFits (reserve : Reserve) (command : List Bytes) : Prop where
  length : command.length ≤ maxLength
  lengths : ∀ s ∈ command, s.length ≤ maxLength
  allocated : reserve command.length = none

theorem CommandFits.encodable {reserve : Reserve} {command : List Bytes} (h : CommandFits reserve command) :
    Encodable reserve (commandValue command) := by
  rw [commandValue, Encodable, encodableAll_iff, List.length_map]
  refine ⟨h.length, h.allocated, fun v hv => ?_⟩
  obtain ⟨s, hs, rfl⟩ := List.mem_map.mp hv
  rw [Encodable]
  exact h.lengths s hs

section Log

variable {reserve : Reserve}

theorem parseCommand_star (t : Bytes) :
    parseCommand reserve (42 :: t) 0 = parseValue reserve (42 :: t) 0 := rfl

/-- One round of the command loop reads one whole entry of a log. -/
theorem frame_entry {command : List Bytes} (hfit : CommandFits reserve command) (rest : Bytes) :
    frame reserve (bulkStringArray command ++ rest)
      = .ok (some (commandValue command, (bulkStringArray command).length)) := by
  have hround : parseValue reserve (serialize (commandValue command) ++ rest) 0
      = .ok (some (commandValue command), (serialize (commandValue command)).length) := by
    refine parseValue_array (by simpa using hfit.length) (by simpa using hfit.allocated) (fun v hv => ?_) rest
    obtain ⟨s, hs, rfl⟩ := List.mem_map.mp hv
    exact parseValue_bulkString (hfit.lengths s hs)
  rw [commandValue, serialize_array_bulkString] at hround
  have hstar : ∃ t, bulkStringArray command ++ rest = 42 :: t := ⟨_, rfl⟩
  obtain ⟨t, ht⟩ := hstar
  rw [ht] at hround ⊢
  simp only [frame, parseCommand_star, hround]
  rfl

/-- A truncated entry yields nothing. -/
theorem drain_truncated {command : List Bytes} (hfit : CommandFits reserve command) {p : Bytes}
    (hp : p <+: bulkStringArray command)
    (hne : p ≠ bulkStringArray command) : drain (frame reserve) p = .ok ([], p) := by
  cases p with
  | nil => rfl
  | cons b t =>
    have hb : b = 42 := by
      obtain ⟨u, hu⟩ := hp
      exact (List.cons.inj hu).1
    subst hb
    have hnone := parseValue_of_strictPrefix hfit.encodable
      (p := 42 :: t) (by rwa [commandValue, serialize_array_bulkString])
      (by rwa [commandValue, serialize_array_bulkString])
    refine IsIncremental.drain_of_none ?_
    simp only [frame, parseCommand_star, hnone]

/-- Draining a cut log returns the whole commands and leaves the torn end. -/
theorem drain_take_log :
    ∀ {commands : List (List Bytes)}, (∀ c ∈ commands, CommandFits reserve c) → ∀ cut,
      ∃ torn, drain (frame reserve) ((commandLog commands).take cut)
          = .ok ((wholeCommands commands cut).map commandValue, torn) ∧
        (commandLog commands).take cut = commandLog (wholeCommands commands cut) ++ torn
  | [], _, cut => ⟨[], by simp [commandLog, wholeCommands], by simp [commandLog, wholeCommands]⟩
  | command :: commands, h, cut => by
    have hfit := h command List.mem_cons_self
    have hlog : commandLog (command :: commands)
        = bulkStringArray command ++ commandLog commands := List.flatMap_cons
    -- either the first command is whole, or the cut falls into it
    by_cases hcut : (bulkStringArray command).length ≤ cut
    · obtain ⟨torn, hdrain, hsplit⟩ := drain_take_log
        (fun c hc => h c (List.mem_cons_of_mem _ hc)) (cut - (bulkStringArray command).length)
      have htake : (commandLog (command :: commands)).take cut = bulkStringArray command
          ++ (commandLog commands).take (cut - (bulkStringArray command).length) := by
        rw [hlog, List.take_append, List.take_of_length_le hcut]
      refine ⟨torn, ?_, ?_⟩
      · rw [htake, isIncremental_frame.drain_of_item (frame_entry hfit _), List.drop_left,
          hdrain, wholeCommands, if_pos hcut]
        rfl
      · rw [htake, hsplit, wholeCommands, if_pos hcut, ← List.append_assoc]
        rfl
    · refine ⟨(bulkStringArray command).take cut, ?_, ?_⟩
      · rw [hlog, List.take_append_of_le_length (by omega), wholeCommands, if_neg hcut,
          drain_truncated hfit (List.take_prefix _ _)
            (fun heq => hcut (List.take_eq_self_iff _ |>.mp heq))]
        rfl
      · rw [hlog, List.take_append_of_le_length (by omega), wholeCommands, if_neg hcut]
        rfl

/-- **A cut log yields exactly its whole commands**, and consumes exactly their bytes. -/
theorem parse_take_log {commands : List (List Bytes)} (h : ∀ c ∈ commands, CommandFits reserve c) (cut : ℕ) :
    parse reserve ((commandLog commands).take cut)
      = .ok ⟨(wholeCommands commands cut).map commandValue,
          (commandLog (wholeCommands commands cut)).length⟩ := by
  obtain ⟨torn, hdrain, hsplit⟩ := drain_take_log h cut
  rw [parse_eq_drain, hdrain]
  simp only [Except.map, hsplit, List.length_append, Nat.add_sub_cancel]

end Log

/-- **The RESP codec.** A serialized value, followed by anything, is read back with the cursor exactly at its end;
every strict prefix of it is read as no value with the cursor restored; and a log of commands cut at any byte parses
as exactly the commands wholly contained in it. The allocator has to give the memory for the arrays of the value, or
for the arguments of the commands, and for nothing else. The first two parts are inductions over the value; the third
is one over the log, with the command that the cut falls into as the strict prefix of the second part. -/
theorem resp_codec (reserve : Reserve) :
    (∀ v, Encodable reserve v → ∀ rest,
      parseValue reserve (serialize v ++ rest) 0 = .ok (some v, (serialize v).length)) ∧
    (∀ v, Encodable reserve v → ∀ p, p <+: serialize v → p ≠ serialize v →
      parseValue reserve p 0 = .ok (none, 0)) ∧
    (∀ commands, (∀ c ∈ commands, CommandFits reserve c) → ∀ cut,
      parse reserve ((commandLog commands).take cut)
        = .ok ⟨(wholeCommands commands cut).map commandValue,
            (commandLog (wholeCommands commands cut)).length⟩) :=
  ⟨fun _ hv rest => parseValue_serialize hv rest,
    fun _ hv _ hp hne => parseValue_of_strictPrefix hv hp hne,
    fun _ h cut => parse_take_log h cut⟩

/-- An allocator that gives the memory for four elements at most. -/
def smallReserve : Reserve := fun n => if n ≤ 4 then none else some .badAlloc

/-- The codec with an allocator that refuses all but small arrays: on a nested value with something behind
it, on the value without its last byte, and on a log that is cut in its second command. -/
theorem resp_codec_nested :
    parseValue smallReserve
        (serialize (.array [.integer (-7), .array [.bulkString CRLF, .null]]) ++ [42]) 0
      = .ok (some (.array [.integer (-7), .array [.bulkString CRLF, .null]]),
          (serialize (.array [.integer (-7), .array [.bulkString CRLF, .null]])).length) ∧
    parseValue smallReserve (serialize (.array [.integer (-7), .array [.bulkString CRLF, .null]])).dropLast 0
      = .ok (none, 0) ∧
    parse smallReserve ((commandLog [[str "GET", str "k"], [str "DEL", CRLF, []]]).take 40)
      = .ok ⟨(wholeCommands [[str "GET", str "k"], [str "DEL", CRLF, []]] 40).map commandValue,
          (commandLog (wholeCommands [[str "GET", str "k"], [str "DEL", CRLF, []]] 40)).length⟩ := by
  obtain ⟨hround, hprefix, hlog⟩ := resp_codec smallReserve
  have hv : Encodable smallReserve (.array [.integer (-7), .array [.bulkString CRLF, .null]]) := by
    simp [Encodable, EncodableAll, maxLength, CRLF, smallReserve]
  have hfits : ∀ c ∈ [[str "GET", str "k"], [str "DEL", CRLF, []]], CommandFits smallReserve c := by
    intro c hc
    -- at most three arguments of at most three bytes
    have hsmall : c.length ≤ 3 ∧ ∀ s ∈ c, s.length ≤ 3 := by
      rcases List.mem_cons.mp hc with rfl | hc
      · decide
      · obtain rfl := List.mem_singleton.mp hc
        decide
    have hmax : 3 ≤ maxLength := by decide
    exact ⟨hsmall.1.trans hmax, fun s hs => (hsmall.2 s hs).trans hmax, if_pos (hsmall.1.trans (by decide))⟩
  exact ⟨hround _ hv [42], hprefix _ hv _ (List.dropLast_prefix _) (by decide), hlog _ hfits 40⟩

end RespParser
end RedisDb
