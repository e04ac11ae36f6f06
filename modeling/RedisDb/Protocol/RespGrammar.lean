import RedisDb.Protocol.RespHeaders
import RedisDb.Protocol.InlineRequests

/-!
# What the parser accepts

`Frame` is the grammar of the wire format, with the header lines left open: read by `IsHeader` it is the protocol, and
read by `ReadsAs`, with lines of arguments among the elements of an array, it is what `parseValue` accepts
(`parseValue_iff`). So the parser keeps to the protocol on exactly the texts whose first frame, if they begin with
one, is a frame of the protocol.

Frames are read as their values by induction on the frame, together with the frames of the elements
(`parseValue_of_frame`, `parseElements_of_frames`). For each kind of frame there is one lemma about its first line,
which says what the parser does with the line and with what comes behind it. In the other direction the induction is
on the length of the text, since the elements of an array are read from shorter texts (`accepted_of_parseValue`). Here
the first byte decides between the kinds, and the same lemmas tell what the parser has read.

The grammar is unambiguous because the parser is a function: two frames at the beginning of one text are both what it
reads.
-/

namespace RedisDb
namespace RespParser

open RespSerializer

/-! ### The grammar -/

section Grammar

variable (header : Bytes → ℤ → Prop) (lines : Prop)

mutual

/-- The text is a frame of the value: `header` reads its header lines, and a line of arguments can
stand for an array if `lines` holds. -/
inductive Frame : Bytes → RespValue → Prop
  | simpleString {line : Bytes} : ¬ CRLF <:+: line → Frame (43 :: line ++ CRLF) (.simpleString line)
  | error {line : Bytes} : ¬ CRLF <:+: line → Frame (45 :: line ++ CRLF) (.error line)
  | integer {line : Bytes} {n : ℤ} : ¬ CRLF <:+: line → header line n →
      Frame (58 :: line ++ CRLF) (.integer (Int64.ofInt n))
  | nullString {line : Bytes} : ¬ CRLF <:+: line → header line (-1) → Frame (36 :: line ++ CRLF) .null
  | bulkString {line data : Bytes} : ¬ CRLF <:+: line → header line data.length →
      Frame (36 :: line ++ CRLF ++ (data ++ CRLF)) (.bulkString data)
  | nullArray {line : Bytes} : ¬ CRLF <:+: line → header line (-1) → Frame (42 :: line ++ CRLF) .null
  | array {line text : Bytes} {elements : List RespValue} : ¬ CRLF <:+: line →
      header line elements.length → Frames text elements →
      Frame (42 :: line ++ CRLF ++ text) (.array elements)
  | line {line : Bytes} : lines → ¬ CRLF <:+: line → (∀ b ∈ line.head?, ¬ IsTypeByte b) →
      Frame (line ++ CRLF) (.array ((inlineArgs line).map .bulkString))

/-- The text is frames of the values, one behind another. -/
inductive Frames : Bytes → List RespValue → Prop
  | nil : Frames [] []
  | cons {text texts : Bytes} {v : RespValue} {vs : List RespValue} : Frame text v → Frames texts vs →
      Frames (text ++ texts) (v :: vs)

end

end Grammar

section Mono

variable {header header' : Bytes → ℤ → Prop} {lines lines' : Prop}

mutual

/-- A grammar that reads more headers has more frames. -/
theorem Frame.mono (hheader : ∀ line n, header line n → header' line n) (hlines : lines → lines') :
    ∀ {text : Bytes} {v : RespValue}, Frame header lines text v → Frame header' lines' text v
  | _, _, .simpleString hline => .simpleString hline
  | _, _, .error hline => .error hline
  | _, _, .integer hline h => .integer hline (hheader _ _ h)
  | _, _, .nullString hline h => .nullString hline (hheader _ _ h)
  | _, _, .bulkString hline h => .bulkString hline (hheader _ _ h)
  | _, _, .nullArray hline h => .nullArray hline (hheader _ _ h)
  | _, _, .array hline h hs => .array hline (hheader _ _ h) (Frames.mono hheader hlines hs)
  | _, _, .line h hline htype => .line (hlines h) hline htype

@[inherit_doc Frame.mono]
theorem Frames.mono (hheader : ∀ line n, header line n → header' line n) (hlines : lines → lines') :
    ∀ {text : Bytes} {vs : List RespValue}, Frames header lines text vs → Frames header' lines' text vs
  | _, _, .nil => .nil
  | _, _, .cons h hs => .cons (Frame.mono hheader hlines h) (Frames.mono hheader hlines hs)

end

/-- A frame has a byte at least. -/
theorem Frame.length_pos {text : Bytes} {v : RespValue} (h : Frame header lines text v) :
    0 < text.length := by
  cases h <;> simp [CRLF]

/-- An array has no more elements than its text has bytes. -/
theorem Frames.length_le : ∀ {text : Bytes} {vs : List RespValue}, Frames header lines text vs →
    vs.length ≤ text.length
  | _, _, .nil => le_rfl
  | _, _, .cons h hs => by
    have hpos := h.length_pos
    have hle := hs.length_le
    rw [List.length_append, List.length_cons]
    omega

end Mono

/-! ### One header line -/

/-- A text ends within its first line, or goes on behind it. -/
theorem line_cases (t : Bytes) : ¬ CRLF <:+: t ∨
    ∃ line rest, t = line ++ CRLF ++ rest ∧ ¬ CRLF <:+: line := by
  induction t with
  | nil => exact .inl (by decide)
  | cons a t ih =>
    by_cases hstart : CRLF <+: a :: t
    · obtain ⟨rest, hrest⟩ := hstart
      exact .inr ⟨[], rest, hrest.symm, by decide⟩
    rcases ih with hnone | ⟨line, rest, rfl, hline⟩
    · exact .inl fun h => (List.infix_cons_iff.mp h).elim hstart hnone
    · refine .inr ⟨a :: line, rest, rfl, fun h => (List.infix_cons_iff.mp h).elim ?_ hline⟩
      -- A terminator at the start of the line would be one of the text.
      rintro ⟨u, hu⟩
      exact hstart ⟨u ++ (CRLF ++ rest), by rw [← List.append_assoc, hu]; simp⟩

/-- There is no terminator to be found. -/
theorem crlfOffset_of_no_terminator {t : Bytes} (ht : ¬ CRLF <:+: t) : crlfOffset t = none := by
  cases hoffset : crlfOffset t with
  | none => rfl
  | some k => exact absurd ⟨_, _, (crlfOffset_spec hoffset).2.symm⟩ ht

/-- There is no line, then. -/
theorem readLine_of_no_terminator {t : Bytes} (ht : ¬ CRLF <:+: t) (b : UInt8) :
    readLine (b :: t) (0 + 1) = none := by
  rw [readLine_eq, Option.map_eq_none_iff]
  exact crlfOffset_of_no_terminator ht

/-- A text that begins with a terminator. -/
theorem crlf_prefix_iff {t : Bytes} : CRLF <+: t ↔ t[0]? = some CR ∧ t[1]? = some LF := by
  constructor
  · rintro ⟨u, rfl⟩
    exact ⟨rfl, rfl⟩
  · rintro ⟨hcr, hlf⟩
    match t, hcr, hlf with
    | a :: b :: u, hcr, hlf =>
      obtain rfl : a = CR := Option.some.inj hcr
      obtain rfl : b = LF := Option.some.inj hlf
      exact ⟨u, rfl⟩

/-- The bytes before a terminator and those behind it. -/
theorem split_of_terminator {rest : Bytes} {n : ℕ} (h : CRLF <+: rest.drop n) :
    ∃ rest', rest = rest.take n ++ CRLF ++ rest' ∧ (rest.take n).length = n := by
  obtain ⟨rest', hrest'⟩ := h
  refine ⟨rest', by rw [List.append_assoc, hrest', List.take_append_drop], ?_⟩
  have hlength := congrArg List.length hrest'
  rw [List.length_append, List.length_drop, show CRLF.length = 2 from rfl] at hlength
  rw [List.length_take]
  omega

section Lines

variable {reserve : Reserve} {line : Bytes}

/-- A number is there if its line can be converted. -/
theorem parseInteger_line (hline : ¬ CRLF <:+: line) (rest : Bytes) :
    parseInteger (58 :: line ++ CRLF ++ rest) 0 = match headerNumber line with
      | none => (none, 0)
      | some n => (some (.integer (Int64.ofInt n)), line.length + 3) := by
  rewrite [parseInteger, readLine_header hline]
  rfl

/-- A bulk string is there if its terminator is. -/
theorem parseBulkString_line (hline : ¬ CRLF <:+: line) (rest : Bytes) :
    parseBulkString (36 :: line ++ CRLF ++ rest) 0 = match headerNumber line with
      | none => (none, 0)
      | some n =>
        if n = -1 then (some .null, line.length + 3)
        else if n < 0 then (none, 0)
        else if CRLF <+: rest.drop n.toNat then
          (some (.bulkString (rest.take n.toNat)), line.length + 3 + n.toNat + 2)
        else (none, 0) := by
  rw [parseBulkString, readLine_header hline]
  dsimp only
  cases headerNumber line with
  | none => rfl
  | some n =>
    dsimp only
    have hlength : (36 :: line ++ CRLF ++ rest).length = line.length + 3 + rest.length := by
      simp [CRLF]; omega
    have hheader : (36 :: line ++ CRLF).length = line.length + 3 := by simp [CRLF]
    have hget (i : ℕ) : (36 :: line ++ CRLF ++ rest)[line.length + 3 + i]? = rest[i]? := by
      rw [← hheader, List.getElem?_append_right (Nat.le_add_right _ _), Nat.add_sub_cancel_left]
    have hdrop : (36 :: line ++ CRLF ++ rest).drop (line.length + 3) = rest := by
      rw [← hheader, List.drop_left]
    -- the two bytes that are looked at are the terminator
    have hterminator : CRLF <+: rest.drop n.toNat ↔
        rest[n.toNat]? = some CR ∧ rest[n.toNat + 1]? = some LF := by
      rw [crlf_prefix_iff, List.getElem?_drop, List.getElem?_drop, Nat.add_zero]
    rw [hlength, Nat.add_assoc (line.length + 3) n.toNat 1, hget, hget, hdrop]
    by_cases hnull : n = -1
    · rw [if_pos hnull, if_pos hnull]
    by_cases hneg : n < 0
    · rw [if_neg hnull, if_pos hneg, if_neg hnull, if_pos hneg]
    rw [if_neg hnull, if_neg hneg, if_neg hnull, if_neg hneg]
    by_cases hend : CRLF <+: rest.drop n.toNat
    · obtain ⟨hcr, hlf⟩ := hterminator.mp hend
      have hlt := (List.getElem?_eq_some_iff.mp hlf).1
      rw [if_pos hend, if_neg (by omega), if_neg (by simp [hcr, hlf])]
    · rw [if_neg hend]
      rw [hterminator, not_and_or] at hend
      split
      · rfl
      · rfl

/-- An array is there if its elements are. -/
theorem parseArray_line (hline : ¬ CRLF <:+: line) (rest : Bytes) :
    parseArray reserve (parseValue reserve) (42 :: line ++ CRLF ++ rest) 0 = match headerNumber line with
      | none => .ok (none, 0)
      | some n =>
        if n = -1 then .ok (some .null, line.length + 3)
        else if n < 0 then .ok (none, 0)
        else match reserve n.toNat with
          | some e => .error e
          | none =>
            match parseElements (parseValue reserve) (42 :: line ++ CRLF ++ rest) n.toNat
                (line.length + 3) with
            | .error e => .error e
            | .ok (none, _) => .ok (none, 0)
            | .ok (some elements, q) => .ok (some (.array elements), q) := by
  rewrite [parseArray, readLine_header hline]
  rfl

/-- What begins with no type byte is a line of arguments. -/
theorem parseValue_inline {s : Bytes} {b : UInt8} (hb : s[0]? = some b) (hplain : ¬ IsTypeByte b) :
    parseValue reserve s 0 = .ok (parseInline s 0) := by
  rw [parseValue_eq, parseByType, hb]
  unfold IsTypeByte at hplain
  split <;> simp_all

/-- A typed value whose first line has not ended. -/
theorem parseValue_of_no_terminator {t : Bytes} {b : UInt8} (ht : ¬ CRLF <:+: t) (hb : IsTypeByte b) :
    parseValue reserve (b :: t) 0 = .ok (none, 0) := by
  have hread := readLine_of_no_terminator ht b
  rw [parseValue_eq]
  rcases hb with rfl | rfl | rfl | rfl | rfl
  · change parseArray reserve (parseValue reserve) (42 :: t) 0 = _
    rw [parseArray, hread]
  · change Except.ok (parseSimpleString (43 :: t) 0) = _
    rw [parseSimpleString, hread]
  · change Except.ok (parseError (45 :: t) 0) = _
    rw [parseError, hread]
  · change Except.ok (parseInteger (58 :: t) 0) = _
    rw [parseInteger, hread]
  · change Except.ok (parseBulkString (36 :: t) 0) = _
    rw [parseBulkString, hread]

/-- A line of arguments must have ended. -/
theorem parseInline_of_no_terminator {s : Bytes} (hs : ¬ CRLF <:+: s) : parseInline s 0 = (none, 0) := by
  rw [parseInline, readLine_eq, List.drop_zero, crlfOffset_of_no_terminator hs]
  rfl

end Lines

/-! ### Frames are accepted -/

section Accepts

variable {reserve : Reserve}

/-! #### Frames of one kind each -/

section Flat

variable (reserve) {line : Bytes}

/-- A status is its line. -/
theorem parseValue_simpleString_line (hline : ¬ CRLF <:+: line) (rest : Bytes) :
    parseValue reserve (43 :: line ++ CRLF ++ rest) 0
      = .ok (some (.simpleString line), (43 :: line ++ CRLF).length) := by
  rw [parseValue_eq]
  change Except.ok (parseSimpleString (43 :: line ++ CRLF ++ rest) 0) = _
  rw [parseSimpleString, readLine_header hline]
  simp [CRLF]

/-- So is an error. -/
theorem parseValue_error_line (hline : ¬ CRLF <:+: line) (rest : Bytes) :
    parseValue reserve (45 :: line ++ CRLF ++ rest) 0
      = .ok (some (.error line), (45 :: line ++ CRLF).length) := by
  rw [parseValue_eq]
  change Except.ok (parseError (45 :: line ++ CRLF ++ rest) 0) = _
  rw [parseError, readLine_header hline]
  simp [CRLF]

/-- A number is what its line is read as. -/
theorem parseValue_integer_line {n : ℤ} (hline : ¬ CRLF <:+: line) (h : ReadsAs line n) (rest : Bytes) :
    parseValue reserve (58 :: line ++ CRLF ++ rest) 0
      = .ok (some (.integer (Int64.ofInt n)), (58 :: line ++ CRLF).length) := by
  rw [parseValue_eq]
  change Except.ok (parseInteger (58 :: line ++ CRLF ++ rest) 0) = _
  rw [parseInteger_line hline, headerNumber_iff.mpr h]
  simp [CRLF]

/-- A length of -1 is no string. -/
theorem parseValue_nullString_line (hline : ¬ CRLF <:+: line) (h : ReadsAs line (-1)) (rest : Bytes) :
    parseValue reserve (36 :: line ++ CRLF ++ rest) 0
      = .ok (some .null, (36 :: line ++ CRLF).length) := by
  rw [parseValue_eq]
  change Except.ok (parseBulkString (36 :: line ++ CRLF ++ rest) 0) = _
  rw [parseBulkString_line hline, headerNumber_iff.mpr h]
  simp [CRLF]

/-- A string of the announced length, with its terminator. -/
theorem parseValue_bulkString_line {data : Bytes} (hline : ¬ CRLF <:+: line)
    (h : ReadsAs line data.length) (rest : Bytes) :
    parseValue reserve (36 :: line ++ CRLF ++ (data ++ CRLF) ++ rest) 0
      = .ok (some (.bulkString data), (36 :: line ++ CRLF ++ (data ++ CRLF)).length) := by
  rw [parseValue_eq, List.append_assoc]
  change Except.ok (parseBulkString (36 :: line ++ CRLF ++ (data ++ CRLF ++ rest)) 0) = _
  rw [parseBulkString_line hline, headerNumber_iff.mpr h]
  have hend : CRLF <+: (data ++ CRLF ++ rest).drop data.length := by simp
  have hdata : (data ++ CRLF ++ rest).take data.length = data := by simp
  simp only [Int.toNat_natCast, hend, hdata, if_true]
  rw [if_neg (by omega), if_neg (by omega)]
  simp [CRLF]
  omega

/-- A length of -1 is no array. -/
theorem parseValue_nullArray_line (hline : ¬ CRLF <:+: line) (h : ReadsAs line (-1)) (rest : Bytes) :
    parseValue reserve (42 :: line ++ CRLF ++ rest) 0
      = .ok (some .null, (42 :: line ++ CRLF).length) := by
  rw [parseValue_eq]
  change parseArray reserve (parseValue reserve) (42 :: line ++ CRLF ++ rest) 0 = _
  rw [parseArray_line hline, headerNumber_iff.mpr h]
  simp [CRLF]

variable {reserve}

/-- An array of as many elements as are announced. -/
theorem parseValue_array_line {text rest : Bytes} {elements : List RespValue} (hline : ¬ CRLF <:+: line)
    (h : ReadsAs line elements.length) (hroom : reserve elements.length = none)
    (helements : parseElements (parseValue reserve) (42 :: line ++ CRLF ++ text ++ rest) elements.length
      (42 :: line ++ CRLF).length = .ok (some elements, (42 :: line ++ CRLF).length + text.length)) :
    parseValue reserve (42 :: line ++ CRLF ++ text ++ rest) 0
      = .ok (some (.array elements), (42 :: line ++ CRLF ++ text).length) := by
  have hheader : (42 :: line ++ CRLF).length = line.length + 3 := by simp [CRLF]
  rw [parseValue_eq, List.append_assoc]
  rw [hheader, List.append_assoc] at helements
  change parseArray reserve (parseValue reserve) (42 :: line ++ CRLF ++ (text ++ rest)) 0 = _
  rw [parseArray_line hline, headerNumber_iff.mpr h]
  simp only [Int.toNat_natCast, hroom, helements]
  rw [if_neg (by omega), if_neg (by omega), List.length_append, hheader]

end Flat

mutual

/-- **A frame is read as its value**, whatever follows it, where there is room for the elements. -/
theorem parseValue_of_frame : ∀ {text : Bytes} {v : RespValue}, Frame ReadsAs True text v →
    (∀ n ≤ text.length, reserve n = none) → ∀ rest,
      parseValue reserve (text ++ rest) 0 = .ok (some v, text.length)
  | _, _, .simpleString hline, _, rest => parseValue_simpleString_line reserve hline rest
  | _, _, .error hline, _, rest => parseValue_error_line reserve hline rest
  | _, _, .integer hline h, _, rest => parseValue_integer_line reserve hline h rest
  | _, _, .nullString hline h, _, rest => parseValue_nullString_line reserve hline h rest
  | _, _, .bulkString hline h, _, rest => parseValue_bulkString_line reserve hline h rest
  | _, _, .nullArray hline h, _, rest => parseValue_nullArray_line reserve hline h rest
  | _, _, @Frame.array _ _ line text _ hline h hs, hres, rest => by
    rw [List.length_append] at hres
    exact parseValue_array_line hline h (hres _ (hs.length_le.trans (Nat.le_add_left _ _)))
      (parseElements_of_frames hs (fun n hn => hres n (by omega)) (42 :: line ++ CRLF) rest)
  | _, _, @Frame.line _ _ line _ hline htype, _, rest => by
    obtain ⟨b, hb, hplain⟩ := head_line htype rest
    rw [parseValue_inline hb hplain, parseInline_line hline]
    simp [commandValue, CRLF]

/-- **Frames are read as their values**, one behind another. -/
theorem parseElements_of_frames : ∀ {text : Bytes} {vs : List RespValue}, Frames ReadsAs True text vs →
    (∀ n ≤ text.length, reserve n = none) → ∀ pre rest,
      parseElements (parseValue reserve) (pre ++ text ++ rest) vs.length pre.length
        = .ok (some vs, pre.length + text.length)
  | _, _, .nil, _, _, _ => rfl
  | _, _, @Frames.cons _ _ text texts v vs h hs, hres, pre, rest => by
    rw [List.length_append] at hres
    have hfirst := @parseValue_shift reserve pre (text ++ (texts ++ rest)) 0
    rw [parseValue_of_frame h (fun n hn => hres n (by omega)), shift_ok, Nat.add_zero] at hfirst
    have hothers := parseElements_of_frames hs (fun n hn => hres n (by omega)) (pre ++ text) rest
    have hbuffer : pre ++ text ++ texts ++ rest = pre ++ (text ++ (texts ++ rest)) := by simp
    rw [hbuffer, List.length_append] at hothers
    have hgoal : pre ++ (text ++ texts) ++ rest = pre ++ (text ++ (texts ++ rest)) := by simp
    rw [hgoal, List.length_cons, parseElements, hfirst]
    simp only [hothers, List.length_append, Nat.add_assoc]

end

/-! ### What is accepted is a frame -/

/-- The text begins with a frame of the value, of the length that the cursor has moved. -/
def Accepted (s : Bytes) (v : RespValue) (q : ℕ) : Prop :=
  ∃ text rest, s = text ++ rest ∧ text.length = q ∧ Frame ReadsAs True text v

/-- By induction on the number of elements. -/
theorem frames_of_parseElements {count : ℕ} : ∀ {pre s : Bytes} {vs : List RespValue} {q : ℕ},
    (∀ r : Bytes, r.length ≤ s.length → ∀ v q, parseValue reserve r 0 = .ok (some v, q) →
      Accepted r v q) →
    parseElements (parseValue reserve) (pre ++ s) count pre.length = .ok (some vs, q) →
    ∃ text rest, s = text ++ rest ∧ q = pre.length + text.length ∧ Frames ReadsAs True text vs ∧
      vs.length = count := by
  induction count with
  | zero =>
    intro pre s vs q _ h
    obtain ⟨hvs, rfl⟩ := Prod.mk.inj (Except.ok.inj h)
    obtain rfl := Option.some.inj hvs
    exact ⟨[], s, rfl, rfl, .nil, rfl⟩
  | succ count ih =>
    intro pre s vs q hvalue h
    have hshift := @parseValue_shift reserve pre s 0
    rw [Nat.add_zero] at hshift
    rw [parseElements, hshift] at h
    cases hfirst : parseValue reserve s 0 with
    | error e => rw [hfirst] at h; cases h
    | ok x =>
      obtain ⟨_ | v, p⟩ := x
      · rw [hfirst] at h; cases h
      obtain ⟨text, rest, rfl, rfl, hframe⟩ := hvalue s le_rfl v p hfirst
      have hbuffer : pre ++ (text ++ rest) = (pre ++ text) ++ rest := (List.append_assoc _ _ _).symm
      rw [hfirst, shift_ok, hbuffer, ← List.length_append] at h
      dsimp only at h
      split at h
      · cases h
      · cases h
      · next vs' q' hothers =>
        obtain ⟨hvs, rfl⟩ := Prod.mk.inj (Except.ok.inj h)
        obtain rfl := Option.some.inj hvs
        -- the elements behind it are read from a shorter text
        have hshorter (r : Bytes) (hr : r.length ≤ rest.length) := hvalue r (by
          rw [List.length_append]; omega)
        obtain ⟨texts, rest', rfl, rfl, hframes, rfl⟩ := ih hshorter hothers
        exact ⟨text ++ texts, rest', by simp, by simp [Nat.add_assoc], .cons hframe hframes, rfl⟩

/-- What is read as a string is one. -/
theorem accepted_bulkString {line rest : Bytes} {v : RespValue} {q : ℕ} (hline : ¬ CRLF <:+: line)
    (h : parseBulkString (36 :: line ++ CRLF ++ rest) 0 = (some v, q)) :
    Accepted (36 :: line ++ CRLF ++ rest) v q := by
  rw [parseBulkString_line hline] at h
  cases hnumber : headerNumber line with
  | none => rw [hnumber] at h; cases h
  | some n =>
    rw [hnumber] at h
    replace hnumber := headerNumber_iff.mp hnumber
    dsimp only at h
    split_ifs at h with hnull hneg hend
    · obtain ⟨hv, rfl⟩ := Prod.mk.inj h
      obtain rfl := Option.some.inj hv
      exact ⟨_, rest, rfl, by simp [CRLF], .nullString hline (hnull ▸ hnumber)⟩
    · cases h
    · obtain ⟨hv, rfl⟩ := Prod.mk.inj h
      obtain rfl := Option.some.inj hv
      -- as many bytes as announced, and the end of line
      obtain ⟨rest', hrest, hlength⟩ := split_of_terminator hend
      refine ⟨36 :: line ++ CRLF ++ (rest.take n.toNat ++ CRLF), rest', ?_, ?_, .bulkString hline ?_⟩
      · conv_lhs => rw [hrest]
        simp
      · simp [CRLF, hlength]
        omega
      · rw [hlength, Int.toNat_of_nonneg (not_lt.mp hneg)]
        exact hnumber
    · cases h

/-- What is read as an array is one, if this holds of shorter texts. -/
theorem accepted_array {line rest : Bytes} {v : RespValue} {q : ℕ} (hline : ¬ CRLF <:+: line)
    (hvalue : ∀ r : Bytes, r.length ≤ rest.length → ∀ v q, parseValue reserve r 0 = .ok (some v, q) →
      Accepted r v q)
    (h : parseArray reserve (parseValue reserve) (42 :: line ++ CRLF ++ rest) 0 = .ok (some v, q)) :
    Accepted (42 :: line ++ CRLF ++ rest) v q := by
  have hheader : (42 :: line ++ CRLF).length = line.length + 3 := by simp [CRLF]
  rw [parseArray_line hline] at h
  cases hnumber : headerNumber line with
  | none => rw [hnumber] at h; cases h
  | some n =>
    rw [hnumber] at h
    replace hnumber := headerNumber_iff.mp hnumber
    dsimp only at h
    split_ifs at h with hnull hneg
    · -- the null array
      obtain ⟨hv, rfl⟩ := Prod.mk.inj (Except.ok.inj h)
      obtain rfl := Option.some.inj hv
      exact ⟨_, rest, rfl, by simp [CRLF], .nullArray hline (hnull ▸ hnumber)⟩
    · cases h
    · split at h
      · cases h
      · split at h
        · cases h
        · cases h
        · next elements q' helements =>
          -- as many frames as the header says
          obtain ⟨hv, rfl⟩ := Prod.mk.inj (Except.ok.inj h)
          obtain rfl := Option.some.inj hv
          rw [← hheader] at helements
          obtain ⟨text, rest', rfl, rfl, hframes, hcount⟩ := frames_of_parseElements hvalue helements
          refine ⟨42 :: line ++ CRLF ++ text, rest', by simp, List.length_append, .array hline ?_ hframes⟩
          rw [hcount, Int.toNat_of_nonneg (not_lt.mp hneg)]
          exact hnumber

/-- **A value is read from a frame**, and the cursor is at its end. By induction on the text, whose
elements are shorter. -/
theorem accepted_of_parseValue {s : Bytes} : ∀ {v : RespValue} {q : ℕ},
    parseValue reserve s 0 = .ok (some v, q) → Accepted s v q := by
  induction hk : s.length using Nat.strong_induction_on generalizing s with
  | _ k ih =>
    intro v q h
    cases s with
    | nil =>
      rw [parseValue_eq, parseByType_of_none rfl] at h
      cases h
    | cons b t =>
      by_cases hb : IsTypeByte b
      · rcases line_cases t with ht | ⟨line, rest, rfl, hline⟩
        · rw [parseValue_of_no_terminator ht hb] at h
          cases h
        -- One case for each type byte: its parser on a text that has its first line.
        rw [parseValue_eq] at h
        rcases hb with rfl | rfl | rfl | rfl | rfl
        · replace h : parseArray reserve (parseValue reserve) (42 :: line ++ CRLF ++ rest) 0
              = .ok (some v, q) := h
          refine accepted_array hline (fun r hr v q => ih r.length ?_ rfl) h
          rw [← hk, List.length_cons, List.length_append]
          omega
        · replace h : Except.ok (parseSimpleString (43 :: line ++ CRLF ++ rest) 0) = .ok (some v, q) := h
          rw [parseSimpleString, readLine_header hline] at h
          obtain ⟨hv, rfl⟩ := Prod.mk.inj (Except.ok.inj h)
          obtain rfl := Option.some.inj hv
          exact ⟨_, rest, rfl, by simp [CRLF], .simpleString hline⟩
        · replace h : Except.ok (parseError (45 :: line ++ CRLF ++ rest) 0) = .ok (some v, q) := h
          rw [parseError, readLine_header hline] at h
          obtain ⟨hv, rfl⟩ := Prod.mk.inj (Except.ok.inj h)
          obtain rfl := Option.some.inj hv
          exact ⟨_, rest, rfl, by simp [CRLF], .error hline⟩
        · replace h : Except.ok (parseInteger (58 :: line ++ CRLF ++ rest) 0) = .ok (some v, q) := h
          rw [parseInteger_line hline] at h
          cases hnumber : headerNumber line with
          | none => rw [hnumber] at h; cases h
          | some n =>
            rw [hnumber] at h
            obtain ⟨hv, rfl⟩ := Prod.mk.inj (Except.ok.inj h)
            obtain rfl := Option.some.inj hv
            exact ⟨_, rest, rfl, by simp [CRLF], .integer hline (headerNumber_iff.mp hnumber)⟩
        · replace h : Except.ok (parseBulkString (36 :: line ++ CRLF ++ rest) 0) = .ok (some v, q) := h
          exact accepted_bulkString hline (Except.ok.inj h)
      · -- any other first byte begins an inline request
        rw [parseValue_inline rfl hb] at h
        rcases line_cases (b :: t) with ht | ⟨line, rest, hs, hline⟩
        · rw [parseInline_of_no_terminator ht] at h
          cases h
        · rw [hs, parseInline_line hline] at h
          obtain ⟨hv, rfl⟩ := Prod.mk.inj (Except.ok.inj h)
          obtain rfl := Option.some.inj hv
          refine ⟨line ++ CRLF, rest, hs, by simp [CRLF], .line trivial hline fun b' hb' => ?_⟩
          cases line with
          | nil => cases hb'
          | cons a line =>
            obtain rfl : a = b' := Option.some.inj hb'
            exact (List.cons.inj hs).1 ▸ hb

/-- **The language of the parser**: a value is read with the cursor at `q` if and only if the text begins
with a frame of the value that takes up `q` bytes. -/
theorem parseValue_iff {s : Bytes} (hres : ∀ n ≤ s.length, reserve n = none) {v : RespValue} {q : ℕ} :
    parseValue reserve s 0 = .ok (some v, q) ↔ Accepted s v q := by
  refine ⟨accepted_of_parseValue, ?_⟩
  rintro ⟨text, rest, rfl, rfl, hframe⟩
  exact parseValue_of_frame hframe (fun n hn => hres n (hn.trans (by simp))) rest

/-! ### The protocol -/

/-- The first frame of the text, if it begins with one, is a frame of the protocol: no header in it has
white space or a plus sign before its digits or anything behind them, and no line of arguments is an
element of it where `lines` does not hold. -/
def Plain (lines : Prop) (s : Bytes) : Prop :=
  ∀ text v, text <+: s → Frame ReadsAs True text v → Frame IsHeader lines text v

/-- **What the parser accepts is the protocol** if and only if the first frame of the text is a frame of it. Every
frame of the protocol is accepted on any text. The parser reads exactly the frames of a laxer grammar
(`parseValue_iff`), and a frame of the protocol is one of these; no two frames begin one text, so the question is
whether the one that is read is a frame of the protocol. -/
theorem accepts_protocol_iff (lines : Prop) {s : Bytes} (hres : ∀ n ≤ s.length, reserve n = none) :
    ((∀ v q, parseValue reserve s 0 = .ok (some v, q) →
        ∃ text, text <+: s ∧ text.length = q ∧ Frame IsHeader lines text v) ∧
      (∀ text v, text <+: s → Frame IsHeader lines text v →
        parseValue reserve s 0 = .ok (some v, text.length))) ↔ Plain lines s := by
  have hlax {text : Bytes} {v : RespValue} (h : Frame IsHeader lines text v) : Frame ReadsAs True text v :=
    h.mono (fun _ _ hheader => hheader.readsAs) fun _ => trivial
  have hread {text : Bytes} {v : RespValue} (htext : text <+: s) (h : Frame ReadsAs True text v) :
      parseValue reserve s 0 = .ok (some v, text.length) := by
    obtain ⟨rest, rfl⟩ := htext
    exact (parseValue_iff hres).mpr ⟨text, rest, rfl, rfl, h⟩
  constructor
  · rintro ⟨hsound, -⟩ text v htext hframe
    obtain ⟨text', htext', hlength, hframe'⟩ := hsound v text.length (hread htext hframe)
    -- two frames at the head of one text that are read alike are the same
    obtain rfl : text' = text :=
      (List.prefix_of_prefix_length_le htext' htext hlength.le).eq_of_length hlength
    exact hframe'
  · refine fun hplain => ⟨fun v q h => ?_, fun text v htext hframe => hread htext (hlax hframe)⟩
    obtain ⟨text, rest, rfl, rfl, hframe⟩ := (parseValue_iff hres).mp h
    exact ⟨text, List.prefix_append _ _, rfl, hplain text v (List.prefix_append _ _) hframe⟩

end Accepts

/-- A nested frame, with an allocator that has room for what the text can hold. -/
theorem accepts_protocol_nested :
    ((∀ v q, parseValue (fun n => if n ≤ 10 then none else some .badAlloc) (str "*1\r\n:-7\r\n") 0
        = .ok (some v, q) →
        ∃ text, text <+: str "*1\r\n:-7\r\n" ∧ text.length = q ∧ Frame IsHeader False text v) ∧
      (∀ text v, text <+: str "*1\r\n:-7\r\n" → Frame IsHeader False text v →
        parseValue (fun n => if n ≤ 10 then none else some .badAlloc) (str "*1\r\n:-7\r\n") 0
          = .ok (some v, text.length))) ↔ Plain False (str "*1\r\n:-7\r\n") :=
  accepts_protocol_iff False fun n hn => if_pos (hn.trans (by decide))

/-- A frame that begins with a colon is a number. -/
theorem Frame.integer_of_head {header : Bytes → ℤ → Prop} {lines : Prop} {text : Bytes} {v : RespValue}
    (h : Frame header lines text v) (hhead : text.head? = some 58) :
    ∃ line n, text = 58 :: line ++ CRLF ∧ header line n := by
  cases h with
  | @integer line n _ hheader => exact ⟨line, n, rfl, hheader⟩
  | @line line _ _ htype =>
    cases line with
    | nil => exact absurd hhead (by decide)
    | cons b line =>
      obtain rfl : b = 58 := Option.some.inj hhead
      exact absurd (htype 58 rfl) (by decide)
  | _ => exact absurd hhead (by simp)

/-- `:12abc` is read as the integer 12, also where lines of arguments count as elements. -/
theorem integer_sloppy : ¬ ∀ s : Bytes, (∃ b ∈ s.head?, IsTypeByte b) →
    ∀ v q, parseValue (fun _ => none) s 0 = .ok (some v, q) →
      ∃ text, text <+: s ∧ text.length = q ∧ Frame IsHeader True text v := by
  intro h
  obtain ⟨text, htext, hlength, hframe⟩ := h (str ":12abc\r\n") ⟨58, rfl, by decide⟩
    (.integer 12) 8 rfl
  obtain rfl : text = str ":12abc\r\n" := htext.eq_of_length hlength
  obtain ⟨line, n, hline, neg, ds, hheader, -, hdigits, -⟩ := hframe.integer_of_head rfl
  obtain rfl : line = str "12abc" := List.append_cancel_right (List.cons.inj hline).2.symm
  -- A letter would have to be a digit.
  have hletter : (97 : UInt8) ∈ ds := by
    have hmem : (97 : UInt8) ∈ (if neg then [45] else []) ++ ds := hheader ▸ by decide
    refine (List.mem_append.mp hmem).resolve_left ?_
    cases neg <;> decide
  exact absurd (hdigits 97 hletter) (by decide)

end RespParser
end RedisDb
