import RedisDb.Protocol.RespGrammar

/-!
# Frames that cannot be completed

The parsers answer "no value" both where bytes are missing and where no bytes can help. `Malformed`
tells the two apart by the text alone: a header line whose number cannot be one, a bulk string with
other bytes where its terminator belongs, or an element of an array that is malformed itself. A text on
which `parse` finds no command can be completed to one with a command if and only if it is not malformed
(`completable_iff`).
-/

namespace RedisDb
namespace RespParser

/-! ### Malformed texts -/

/-- The text begins with a header line, ended or not, and no such line has a number that is accepted,
whatever follows. -/
inductive BadHeader (accept : ℤ → Prop) : Bytes → Prop
  | ended {line : Bytes} (rest : Bytes) : ¬ CRLF <:+: line → (∀ n, ReadsAs line n → ¬ accept n) →
      BadHeader accept (line ++ CRLF ++ rest)
  | unended {line : Bytes} : ¬ CRLF <:+: line → ¬ Opens line → (∀ n, ReadsAs line n → ¬ accept n) →
      BadHeader accept line

/-- The counts of an array: that of no array, and those there is room for. -/
def IsCount (reserve : Reserve) (n : ℤ) : Prop := n = -1 ∨ 0 ≤ n ∧ reserve n.toNat = none

/-- The frame that the text begins with is one that no more bytes make a whole one. -/
inductive Malformed (reserve : Reserve) : Bytes → Prop
  | integer {t : Bytes} : BadHeader (fun _ => True) t → Malformed reserve (58 :: t)
  | length {t : Bytes} : BadHeader (-1 ≤ ·) t → Malformed reserve (36 :: t)
  | terminator {line rest : Bytes} {n : ℕ} : ¬ CRLF <:+: line → ReadsAs line n →
      (∃ b ∈ rest[n]?, b ≠ CR) ∨ (∃ b ∈ rest[n + 1]?, b ≠ LF) →
      Malformed reserve (36 :: line ++ CRLF ++ rest)
  | count {t : Bytes} : BadHeader (IsCount reserve) t → Malformed reserve (42 :: t)
  | element {line text rest : Bytes} {n : ℤ} {elements : List RespValue} : ¬ CRLF <:+: line →
      ReadsAs line n → Frames ReadsAs True text elements → elements.length < n →
      Malformed reserve rest → Malformed reserve (42 :: line ++ CRLF ++ (text ++ rest))

/-! ### Header lines that are bad stay bad -/

/-- The first line of a text is one. -/
theorem line_unique {line line' rest rest' : Bytes} (h : line ++ CRLF ++ rest = line' ++ CRLF ++ rest')
    (hline : ¬ CRLF <:+: line) (hline' : ¬ CRLF <:+: line') : line = line' ∧ rest = rest' := by
  have hoffset := crlfOffset_line hline rest
  rw [h, crlfOffset_line hline' rest'] at hoffset
  have hlength : line'.length = line.length := Option.some.inj hoffset
  obtain ⟨hhead, rfl⟩ := List.append_inj h (by rw [List.length_append, List.length_append, hlength])
  exact ⟨List.append_cancel_right hhead, rfl⟩

/-- A number that has more digits is accepted only if the shorter one is. -/
def ShortensTo (accept : ℤ → Prop) : Prop := ∀ m n, Truncates m n → accept n → accept m

theorem BadHeader.not_accept {accept : ℤ → Prop} (haccept : ShortensTo accept) {t : Bytes}
    (h : BadHeader accept t) {e line rest : Bytes} {n : ℤ} (heq : t ++ e = line ++ CRLF ++ rest)
    (hline : ¬ CRLF <:+: line) (hn : ReadsAs line n) : ¬ accept n := by
  cases h with
  | @ended line' rest' hline' hbad =>
    rw [List.append_assoc] at heq
    obtain ⟨rfl, -⟩ := line_unique heq hline' hline
    exact hbad n hn
  | unended ht hopens hbad =>
    rw [List.append_assoc] at heq
    rcases List.append_eq_append_iff.mp heq with ⟨more, rfl, -⟩ | ⟨tail, rfl, hrest⟩
    · -- The line goes on behind the text.
      rcases hn.of_append with hopen | ⟨m, hm, hcut⟩
      · exact absurd hopen hopens
      · exact fun hacc => hbad m hm (haccept m n hcut hacc)
    · -- The text ends with the line, or within its terminator.
      cases tail with
      | nil => exact hbad n (by rwa [List.append_nil])
      | cons b tail =>
        obtain ⟨rfl, htail⟩ := List.cons.inj (show CR :: LF :: rest = b :: (tail ++ e) from hrest)
        cases tail with
        | nil => exact hbad n (hn.append (by decide) [])
        | cons b tail =>
          obtain ⟨rfl, -⟩ := List.cons.inj htail
          exact absurd ⟨line, tail, by simp [CRLF]⟩ ht

theorem shortensTo_true : ShortensTo fun _ => True := fun _ _ _ _ => trivial

theorem shortensTo_length : ShortensTo (-1 ≤ ·) := by
  rintro m n ⟨neg, ds, more, -, rfl, rfl⟩ hn
  have hle := le_digitsVal_append ds more
  cases neg
  · simp [signedVal]
  · simp only [signedVal, if_true] at hn ⊢
    omega

/-- Where there is room for some elements there is room for fewer. -/
def ShrinksRoom (reserve : Reserve) : Prop := ∀ m n, m ≤ n → reserve n = none → reserve m = none

theorem shortensTo_count {reserve : Reserve} (hzero : reserve 0 = none) (hroom : ShrinksRoom reserve) :
    ShortensTo (IsCount reserve) := by
  rintro m n ⟨neg, ds, more, -, rfl, rfl⟩ hn
  have hle := le_digitsVal_append ds more
  cases neg with
  | false =>
    obtain hnull | ⟨-, hreserve⟩ := hn
    · exact absurd hnull (by simp [signedVal])
    · exact .inr ⟨by simp [signedVal], hroom _ _ (by simpa [signedVal] using hle) hreserve⟩
  | true =>
    -- With a minus sign there are only 0 and -1.
    have hvalue : -1 ≤ signedVal true (ds ++ more) := by
      obtain hnull | ⟨hpos, -⟩ := hn <;> omega
    have hcases : Decimal.digitsVal ds = 0 ∨ Decimal.digitsVal ds = 1 := by
      simp [signedVal] at hvalue
      omega
    rcases hcases with hds | hds
    · exact .inr (by simp [signedVal, hds, hzero])
    · exact .inl (by simp [signedVal, hds])

/-! ### Malformed texts have no value -/

section Stuck

variable {reserve : Reserve}

/-- A text begins with one frame at most. -/
theorem frame_unique {s text text' : Bytes} {v v' : RespValue} (htext : text <+: s) (htext' : text' <+: s)
    (h : Frame ReadsAs True text v) (h' : Frame ReadsAs True text' v') : text = text' ∧ v = v' := by
  obtain ⟨rest, rfl⟩ := htext
  obtain ⟨rest', hs⟩ := htext'
  have hread : parseValue (fun _ => none) (text ++ rest) 0 = .ok (some v, text.length) :=
    parseValue_of_frame h (fun _ _ => rfl) rest
  rw [← hs, parseValue_of_frame h' (fun _ _ => rfl) rest'] at hread
  obtain ⟨hv, hlength⟩ := Prod.mk.inj (Except.ok.inj hread)
  exact ⟨(List.append_inj_left hs hlength).symm, (Option.some.inj hv).symm⟩

/-- Where more elements are read than there are frames, one is read behind them. By induction on the
frames. -/
theorem exists_value_of_parseElements : ∀ {text : Bytes} {elements : List RespValue},
    Frames ReadsAs True text elements → ∀ {pre rest : Bytes} {count : ℕ} {vs : List RespValue} {q : ℕ},
    elements.length < count →
    parseElements (parseValue reserve) (pre ++ (text ++ rest)) count pre.length = .ok (some vs, q) →
    ∃ v p, parseValue reserve rest 0 = .ok (some v, p) := by
  intro text elements h
  induction elements generalizing text with
  | nil =>
    -- no frame is left, so the first element is read from the rest
    intro pre rest count vs q hcount hread
    cases h
    -- more elements are wanted than there are frames
    obtain ⟨count, rfl⟩ : ∃ n, count = n + 1 := ⟨count - 1, by simp at hcount; omega⟩
    have hshift := @parseValue_shift reserve pre rest 0
    rw [Nat.add_zero] at hshift
    rw [List.nil_append, parseElements, hshift] at hread
    cases hfirst : parseValue reserve rest 0 with
    | error e => rw [hfirst] at hread; cases hread
    | ok x =>
      obtain ⟨_ | v, p⟩ := x
      · rw [hfirst] at hread; cases hread
      · exact ⟨v, p, rfl⟩
  | cons v elements ih =>
    intro pre rest count vs q hcount hread
    cases h with
    | @cons text texts _ _ hframe hframes =>
      obtain ⟨count, rfl⟩ : ∃ n, count = n + 1 := ⟨count - 1, by simp at hcount; omega⟩
      have hshift := @parseValue_shift reserve pre (text ++ texts ++ rest) 0
      rw [Nat.add_zero] at hshift
      rw [parseElements, hshift] at hread
      cases hfirst : parseValue reserve (text ++ texts ++ rest) 0 with
      | error e => rw [hfirst] at hread; cases hread
      | ok x =>
        obtain ⟨_ | v', p⟩ := x
        · rw [hfirst] at hread; cases hread
        -- what has been read is the first frame, since there is one frame at most
        obtain ⟨text', rest', hs, rfl, hframe'⟩ := accepted_of_parseValue hfirst
        obtain ⟨rfl, -⟩ := frame_unique (s := text ++ texts ++ rest) ⟨texts ++ rest, by simp⟩
          ⟨rest', hs.symm⟩ hframe hframe'
        have hbuffer : pre ++ (text ++ texts ++ rest) = (pre ++ text) ++ (texts ++ rest) := by simp
        rw [hfirst, shift_ok, hbuffer, ← List.length_append] at hread
        dsimp only at hread
        split at hread
        · cases hread
        · cases hread
        · next vs' q' hothers =>
          exact ih hframes (by simpa using hcount) hothers

/-! #### What a value says of its header line -/

variable {line rest : Bytes} {v : RespValue} {q : ℕ}

theorem exists_line_of_value {t : Bytes} {b : UInt8} (hb : IsTypeByte b)
    (h : parseValue reserve (b :: t) 0 = .ok (some v, q)) :
    ∃ line rest, t = line ++ CRLF ++ rest ∧ ¬ CRLF <:+: line := by
  refine (line_cases t).resolve_left fun ht => ?_
  rw [parseValue_of_no_terminator ht hb] at h
  cases h

theorem header_of_integer (hline : ¬ CRLF <:+: line)
    (h : parseValue reserve (58 :: line ++ CRLF ++ rest) 0 = .ok (some v, q)) : ∃ n, ReadsAs line n := by
  rw [parseValue_eq] at h
  replace h : Except.ok (parseInteger (58 :: line ++ CRLF ++ rest) 0) = .ok (some v, q) := h
  rw [parseInteger_line hline] at h
  cases hnumber : headerNumber line with
  | none => rw [hnumber] at h; cases h
  | some n => exact ⟨n, headerNumber_iff.mp hnumber⟩

theorem header_of_bulkString (hline : ¬ CRLF <:+: line)
    (h : parseValue reserve (36 :: line ++ CRLF ++ rest) 0 = .ok (some v, q)) :
    ∃ n, ReadsAs line n ∧ -1 ≤ n ∧ (0 ≤ n → CRLF <+: rest.drop n.toNat) := by
  rw [parseValue_eq] at h
  replace h : Except.ok (parseBulkString (36 :: line ++ CRLF ++ rest) 0) = .ok (some v, q) := h
  rw [parseBulkString_line hline] at h
  cases hnumber : headerNumber line with
  | none => rw [hnumber] at h; cases h
  | some n =>
    rw [hnumber] at h
    replace h := Except.ok.inj h
    dsimp only at h
    refine ⟨n, headerNumber_iff.mp hnumber, ?_⟩
    -- null, a negative length, as many bytes as announced, or too few
    split_ifs at h with hnull hneg hend
    · exact ⟨hnull.ge, fun hpos => absurd hpos (by omega)⟩
    · cases h
    · exact ⟨by omega, fun _ => hend⟩
    · cases h

theorem header_of_array (hline : ¬ CRLF <:+: line)
    (h : parseValue reserve (42 :: line ++ CRLF ++ rest) 0 = .ok (some v, q)) :
    ∃ n, ReadsAs line n ∧ IsCount reserve n ∧ (0 ≤ n → ∃ vs,
      parseElements (parseValue reserve) (42 :: line ++ CRLF ++ rest) n.toNat (line.length + 3)
        = .ok (some vs, q)) := by
  rw [parseValue_eq] at h
  replace h : parseArray reserve (parseValue reserve) (42 :: line ++ CRLF ++ rest) 0 = .ok (some v, q) := h
  rw [parseArray_line hline] at h
  cases hnumber : headerNumber line with
  | none => rw [hnumber] at h; cases h
  | some n =>
    rw [hnumber] at h
    dsimp only at h
    refine ⟨n, headerNumber_iff.mp hnumber, ?_⟩
    split_ifs at h with hnull hneg
    · exact ⟨.inl hnull, fun hpos => absurd hpos (by omega)⟩
    · cases h
    · split at h
      · cases h
      · next hreserve =>
        refine ⟨.inr ⟨not_lt.mp hneg, hreserve⟩, fun _ => ?_⟩
        split at h
        · cases h
        · cases h
        · next vs q' hvs =>
          -- the elements have all been read
          obtain ⟨-, rfl⟩ := Prod.mk.inj (Except.ok.inj h)
          exact ⟨vs, hvs⟩

theorem readsAs_unique {m n : ℤ} (hm : ReadsAs line m) (hn : ReadsAs line n) : m = n :=
  Option.some.inj ((headerNumber_iff.mpr hm).symm.trans (headerNumber_iff.mpr hn))

/-- **A malformed text has no value**, and no continuation of it has one. By induction on where the
text is malformed. -/
theorem Malformed.not_value (hzero : reserve 0 = none) (hroom : ShrinksRoom reserve) {s : Bytes}
    (h : Malformed reserve s) : ∀ e v q, parseValue reserve (s ++ e) 0 ≠ .ok (some v, q) := by
  induction h with
  | @integer t hbad =>
    -- a value would say that its header line has a number
    intro e v q hread
    obtain ⟨line, rest, heq, hline⟩ := exists_line_of_value (t := t ++ e) (by decide) hread
    rw [List.cons_append, heq] at hread
    obtain ⟨n, hn⟩ := header_of_integer hline hread
    exact hbad.not_accept shortensTo_true heq hline hn trivial
  | @length t hbad =>
    -- so would a bulk string
    intro e v q hread
    obtain ⟨line, rest, heq, hline⟩ := exists_line_of_value (t := t ++ e) (by decide) hread
    rw [List.cons_append, heq] at hread
    obtain ⟨n, hn, hlength, -⟩ := header_of_bulkString hline hread
    exact hbad.not_accept shortensTo_length heq hline hn hlength
  | @terminator line rest n hline hnumber hbad =>
    intro e v q hread
    rw [List.append_assoc] at hread
    obtain ⟨m, hm, -, hend⟩ := header_of_bulkString hline hread
    obtain rfl := readsAs_unique hnumber hm
    -- The bytes that are there already are those of the terminator.
    obtain ⟨hcr, hlf⟩ := crlf_prefix_iff.mp (hend (Int.natCast_nonneg n))
    rw [Int.toNat_natCast, List.getElem?_drop] at hcr hlf
    rcases hbad with ⟨b, hb, hne⟩ | ⟨b, hb, hne⟩
    · rw [Nat.add_zero, List.getElem?_append_left (List.getElem?_eq_some_iff.mp hb).1, hb] at hcr
      exact hne (Option.some.inj hcr)
    · rw [List.getElem?_append_left (List.getElem?_eq_some_iff.mp hb).1, hb] at hlf
      exact hne (Option.some.inj hlf)
  | @count t hbad =>
    -- and an array, whose count is one that can be held
    intro e v q hread
    obtain ⟨line, rest, heq, hline⟩ := exists_line_of_value (t := t ++ e) (by decide) hread
    rw [List.cons_append, heq] at hread
    obtain ⟨n, hn, hcount, -⟩ := header_of_array hline hread
    exact hbad.not_accept (shortensTo_count hzero hroom) heq hline hn hcount
  | @element line text rest n elements hline hnumber hframes hcount _ ih =>
    intro e v q hread
    have hbuffer : 42 :: line ++ CRLF ++ (text ++ rest) ++ e
        = 42 :: line ++ CRLF ++ (text ++ (rest ++ e)) := by simp
    rw [hbuffer] at hread
    obtain ⟨m, hm, -, helements⟩ := header_of_array hline hread
    obtain rfl := readsAs_unique hnumber hm
    obtain ⟨vs, hvs⟩ := helements (by omega)
    have hheader : (42 :: line ++ CRLF).length = line.length + 3 := by simp [CRLF]
    rw [← hheader] at hvs
    -- the element behind the frames would have a value, and it is malformed
    obtain ⟨w, p, hw⟩ := exists_value_of_parseElements hframes (by omega) hvs
    exact ih e w p hw

end Stuck

/-! ### Other texts can be completed -/

section Complete

variable {reserve : Reserve}

/-- Some bytes make the text a frame, and nothing more. -/
def Completable (reserve : Reserve) (s : Bytes) : Prop :=
  ∃ e v, parseValue reserve (s ++ e) 0 = .ok (some v, (s ++ e).length)

theorem no_terminator_append {t : Bytes} (ht : ¬ CRLF <:+: t) {b : UInt8} (hb : b ≠ LF) :
    ¬ CRLF <:+: t ++ [b] := by
  rintro ⟨u, w, huw⟩
  rcases List.eq_nil_or_concat w with rfl | ⟨w, c, rfl⟩
  · -- A terminator at the end would end with the byte.
    have hlast := congrArg List.getLast? huw
    simp [CRLF] at hlast
    exact hb hlast.symm
  · refine ht ⟨u, w, ?_⟩
    rw [List.concat_eq_append, ← List.append_assoc] at huw
    exact (List.append_inj' huw rfl).1

/-- A header line that is not bad can be ended with a number that is accepted. -/
theorem exists_header (accept : ℤ → Prop) (hzero : accept 0) {t : Bytes} (ht : ¬ CRLF <:+: t)
    (h : ¬ BadHeader accept t) :
    ∃ x n, ¬ CRLF <:+: t ++ x ∧ ReadsAs (t ++ x) n ∧ accept n := by
  by_cases hopens : Opens t
  · exact ⟨[48], 0, no_terminator_append ht (by decide), hopens.readsAs, hzero⟩
  · by_contra hnone
    refine h (.unended ht hopens fun n hn hacc => hnone ⟨[], n, ?_⟩)
    rw [List.append_nil]
    exact ⟨ht, hn, hacc⟩

/-- Elements of an array that are still missing: simple strings. -/
def padding (count : ℕ) : Bytes := (List.replicate count (43 :: CRLF)).flatten

variable (reserve) in
theorem parseElements_padding (count : ℕ) : ∀ pre : Bytes, ∃ vs,
    parseElements (parseValue reserve) (pre ++ padding count) count pre.length
      = .ok (some vs, (pre ++ padding count).length) := by
  induction count with
  | zero => exact fun pre => ⟨[], by simp [parseElements, padding]⟩
  | succ count ih =>
    intro pre
    obtain ⟨vs, hvs⟩ := ih (pre ++ 43 :: CRLF)
    -- one more empty simple string is read in front
    have hfirst : parseValue reserve (pre ++ (43 :: CRLF ++ padding count)) pre.length
        = .ok (some (.simpleString []), pre.length + 3) := by
      have hshift := @parseValue_shift reserve pre (43 :: CRLF ++ padding count) 0
      have hvalue : parseValue reserve (43 :: [] ++ CRLF ++ padding count) 0
          = .ok (some (.simpleString []), 3) := by
        rw [parseValue_eq]
        change Except.ok (parseSimpleString (43 :: [] ++ CRLF ++ padding count) 0) = _
        rw [parseSimpleString, readLine_header (by decide)]
        rfl
      rw [Nat.add_zero, show 43 :: CRLF ++ padding count = 43 :: [] ++ CRLF ++ padding count from rfl,
        hvalue] at hshift
      exact hshift
    have hpadding : padding (count + 1) = 43 :: CRLF ++ padding count := by
      simp [padding, List.replicate_succ]
    have hbuffer : pre ++ 43 :: CRLF ++ padding count = pre ++ (43 :: CRLF ++ padding count) :=
      List.append_assoc _ _ _
    rw [hbuffer, List.length_append, show (43 :: CRLF).length = 3 from rfl] at hvs
    refine ⟨.simpleString [] :: vs, ?_⟩
    rw [hpadding, parseElements, hfirst]
    simp only [hvs]

/-- Elements that stop at one that can be completed can be completed. By induction on their number. -/
theorem complete_elements {count : ℕ} : ∀ {pre s : Bytes} {p : ℕ},
    (∀ r : Bytes, r.length ≤ s.length → parseValue reserve r 0 = .ok (none, 0) →
      ¬ Malformed reserve r → Completable reserve r) →
    (∀ text rest elements, s = text ++ rest → Frames ReadsAs True text elements →
      elements.length < count → ¬ Malformed reserve rest) →
    parseElements (parseValue reserve) (pre ++ s) count pre.length = .ok (none, p) →
    ∃ e vs, parseElements (parseValue reserve) (pre ++ s ++ e) count pre.length
      = .ok (some vs, (pre ++ s ++ e).length) := by
  induction count with
  | zero => intro pre s p _ _ h; cases h
  | succ count ih =>
    intro pre s p hvalue hwell h
    have hshift := @parseValue_shift reserve pre s 0
    rw [Nat.add_zero] at hshift
    rw [parseElements, hshift] at h
    cases hfirst : parseValue reserve s 0 with
    | error e => rw [hfirst] at h; cases h
    | ok x =>
      obtain ⟨_ | v, q⟩ := x
      · -- The first element is the one that stops; the others are added.
        obtain rfl := parseValue_none hfirst
        obtain ⟨e, v, hread⟩ := hvalue s le_rfl hfirst (hwell [] s [] rfl .nil (Nat.succ_pos _))
        obtain ⟨vs, hvs⟩ := parseElements_padding reserve count (pre ++ (s ++ e))
        have hone : parseValue reserve (pre ++ (s ++ e ++ padding count)) (pre.length + 0)
            = .ok (some v, pre.length + (s ++ e).length) := by
          rw [parseValue_shift, parseValue_append _ (by rw [hread]; simp), hread, shift_ok]
        have hbuffer : pre ++ s ++ (e ++ padding count) = pre ++ (s ++ e ++ padding count) := by simp
        have hbuffer' : pre ++ (s ++ e) ++ padding count = pre ++ (s ++ e ++ padding count) := by simp
        rw [hbuffer', List.length_append] at hvs
        refine ⟨e ++ padding count, v :: vs, ?_⟩
        rw [hbuffer, parseElements, ← Nat.add_zero pre.length, hone]
        simp only [hvs]
      · -- The first element is there.
        obtain ⟨text, rest, rfl, rfl, hframe⟩ := accepted_of_parseValue hfirst
        have hbuffer : pre ++ (text ++ rest) = pre ++ text ++ rest := (List.append_assoc _ _ _).symm
        rw [hfirst, shift_ok, hbuffer, ← List.length_append] at h
        dsimp only at h
        split at h
        · cases h
        · next p' hstop =>
          obtain ⟨e, vs, hvs⟩ := ih (s := rest)
            (fun r hr => hvalue r (by rw [List.length_append]; omega))
            (fun text' rest' elements hrest hframes hcount => hwell (text ++ text') rest' (v :: elements)
              (by rw [hrest, List.append_assoc]) (.cons hframe hframes) (by simpa using hcount)) hstop
          have hone : parseValue reserve (pre ++ (text ++ rest ++ e)) (pre.length + 0)
              = .ok (some v, pre.length + text.length) := by
            rw [parseValue_shift, parseValue_append _ (by rw [hfirst]; simp), hfirst, shift_ok]
          have hbuffer' : pre ++ text ++ rest ++ e = pre ++ (text ++ rest ++ e) := by simp
          have hlength : (pre ++ text).length = pre.length + text.length := List.length_append
          rw [hbuffer', hlength] at hvs
          refine ⟨e, v :: vs, ?_⟩
          rw [hbuffer, hbuffer', parseElements, ← Nat.add_zero pre.length, hone]
          simp only [hvs]
        · cases h

/-- A bulk string whose header is there, and whose terminator nothing contradicts. -/
theorem complete_bulkString {line rest : Bytes} {n : ℕ} (hline : ¬ CRLF <:+: line) (hn : ReadsAs line n)
    (hshort : ¬ CRLF <+: rest.drop n) (hwell : ¬ Malformed reserve (36 :: line ++ CRLF ++ rest)) :
    Completable reserve (36 :: line ++ CRLF ++ rest) := by
  -- what is missing of the string and its terminator
  obtain ⟨e, hend⟩ : ∃ e, (rest ++ e).drop n = CRLF := by
    rcases Nat.lt_or_ge n rest.length with hlt | hle
    · -- The carriage return is there, and it is the last byte.
      have hcr : rest[n]? = some CR := by
        rw [List.getElem?_eq_getElem hlt]
        refine congrArg some (not_not.mp fun hne => hwell (.terminator hline hn (.inl ?_)))
        exact ⟨rest[n], List.getElem?_eq_getElem hlt, hne⟩
      have hlast : rest[n + 1]? = none := by
        refine Option.eq_none_iff_forall_not_mem.mpr fun b hb => ?_
        by_cases hlf : b = LF
        · refine hshort (crlf_prefix_iff.mpr ?_)
          rw [List.getElem?_drop, List.getElem?_drop]
          exact ⟨hcr, hlf ▸ hb⟩
        · exact hwell (.terminator hline hn (.inr ⟨b, hb, hlf⟩))
      have hlength : rest.length ≤ n + 1 := List.getElem?_eq_none_iff.mp hlast
      refine ⟨[LF], ?_⟩
      rw [List.drop_append_of_le_length (by omega), List.drop_eq_getElem_cons hlt,
        List.drop_of_length_le hlength, Option.some.inj ((List.getElem?_eq_getElem hlt).symm.trans hcr)]
      rfl
    · -- The string itself is not complete: it is filled up, and ended.
      refine ⟨List.replicate (n - rest.length) 0 ++ CRLF, ?_⟩
      have hlength : (rest ++ List.replicate (n - rest.length) 0).length = n := by simp; omega
      rw [← List.append_assoc]
      exact List.drop_left' hlength
  have hlength : (rest ++ e).length = n + 2 := by
    have hdrop := congrArg List.length hend
    rw [List.length_drop, show CRLF.length = 2 from rfl] at hdrop
    omega
  have htake : ((rest ++ e).take n).length = n := by rw [List.length_take]; omega
  have hdata : rest ++ e = (rest ++ e).take n ++ CRLF := by rw [← hend, List.take_append_drop]
  have hnumber : ReadsAs line ((rest ++ e).take n).length := by rwa [htake]
  have hvalue := parseValue_bulkString_line reserve hline hnumber []
  rw [← hdata, List.append_nil] at hvalue
  refine ⟨e, .bulkString ((rest ++ e).take n), ?_⟩
  rwa [List.append_assoc]

theorem length_of_parseElements {parser : Bytes → ℕ → Out} {s : Bytes} {count : ℕ} :
    ∀ {p q : ℕ} {vs : List RespValue}, parseElements parser s count p = .ok (some vs, q) →
      vs.length = count := by
  induction count with
  | zero => intro p q vs h; cases h; rfl
  | succ count ih =>
    intro p q vs h
    rw [parseElements] at h
    split at h
    · cases h
    · cases h
    · split at h
      · cases h
      · cases h
      · next vs' q' hothers =>
        cases h
        rw [List.length_cons, ih hothers]

/-- An array whose elements take up the rest of the text. -/
theorem value_of_elements {line text : Bytes} {n : ℤ} {vs : List RespValue} (hline : ¬ CRLF <:+: line)
    (hn : ReadsAs line n) (hpos : 0 ≤ n) (hroom : reserve n.toNat = none)
    (hvs : parseElements (parseValue reserve) (42 :: line ++ CRLF ++ text) n.toNat
      (42 :: line ++ CRLF).length = .ok (some vs, (42 :: line ++ CRLF ++ text).length)) :
    parseValue reserve (42 :: line ++ CRLF ++ text) 0
      = .ok (some (.array vs), (42 :: line ++ CRLF ++ text).length) := by
  have hcount := length_of_parseElements hvs
  rw [← hcount] at hroom hvs
  have hlength : (42 :: line ++ CRLF ++ text).length = (42 :: line ++ CRLF).length + text.length :=
    List.length_append
  rw [hlength] at hvs
  have hnumber : ReadsAs line vs.length := by
    rw [hcount, Int.toNat_of_nonneg hpos]
    exact hn
  rw [← List.append_nil (42 :: line ++ CRLF ++ text)] at hvs
  have hvalue := parseValue_array_line hline hnumber hroom hvs
  rwa [List.append_nil] at hvalue

/-- A text whose first header line has not ended. -/
theorem complete_unended (hzero : reserve 0 = none) {t : Bytes} {b : UInt8} (ht : ¬ CRLF <:+: t)
    (hb : IsTypeByte b) (hwell : ¬ Malformed reserve (b :: t)) : Completable reserve (b :: t) := by
  rcases hb with rfl | rfl | rfl | rfl | rfl
  · obtain ⟨x, n, hx, hn, hcount⟩ :=
      exists_header (IsCount reserve) (.inr ⟨le_rfl, hzero⟩) ht fun h => hwell (.count h)
    rcases hcount with rfl | ⟨hpos, hroom⟩
    · refine ⟨x ++ CRLF, .null, ?_⟩
      simpa using parseValue_nullArray_line reserve hx hn []
    · -- the elements that the header counts are padded
      obtain ⟨vs, hvs⟩ := parseElements_padding reserve n.toNat (42 :: (t ++ x) ++ CRLF)
      refine ⟨x ++ CRLF ++ padding n.toNat, .array vs, ?_⟩
      simpa using value_of_elements hx hn hpos hroom hvs
  · refine ⟨CRLF, .simpleString t, ?_⟩
    simpa using parseValue_simpleString_line reserve ht []
  · refine ⟨CRLF, .error t, ?_⟩
    simpa using parseValue_error_line reserve ht []
  · obtain ⟨x, n, hx, hn, -⟩ := exists_header (fun _ => True) trivial ht fun h => hwell (.integer h)
    refine ⟨x ++ CRLF, .integer (Int64.ofInt n), ?_⟩
    simpa using parseValue_integer_line reserve hx hn []
  · obtain ⟨x, n, hx, hn, hlength⟩ := exists_header (-1 ≤ ·) (by decide) ht
      fun h => hwell (.length h)
    rcases hlength.eq_or_lt with rfl | hpos
    · refine ⟨x ++ CRLF, .null, ?_⟩
      simpa using parseValue_nullString_line reserve hx hn []
    · -- a string of as many zero bytes as the header says
      have hdata : ReadsAs (t ++ x) ((List.replicate n.toNat (0 : UInt8)).length : ℕ) := by
        rw [List.length_replicate, Int.toNat_of_nonneg (by omega)]
        exact hn
      refine ⟨x ++ CRLF ++ (List.replicate n.toNat 0 ++ CRLF), .bulkString (List.replicate n.toNat 0), ?_⟩
      simpa using parseValue_bulkString_line reserve hx hdata []

/-- A text whose first header line has ended. -/
theorem complete_ended {line rest : Bytes} {b : UInt8} (hb : IsTypeByte b) (hline : ¬ CRLF <:+: line)
    (hvalue : ∀ r : Bytes, r.length ≤ rest.length → parseValue reserve r 0 = .ok (none, 0) →
      ¬ Malformed reserve r → Completable reserve r)
    (hnone : parseValue reserve (b :: line ++ CRLF ++ rest) 0 = .ok (none, 0))
    (hwell : ¬ Malformed reserve (b :: line ++ CRLF ++ rest)) :
    Completable reserve (b :: line ++ CRLF ++ rest) := by
  -- The number of the header is there, and it is accepted.
  have hheader (accept : ℤ → Prop) (hgood : ¬ BadHeader accept (line ++ CRLF ++ rest)) :
      ∃ n, ReadsAs line n ∧ accept n := by
    by_contra hbad
    push Not at hbad
    exact hgood (.ended rest hline hbad)
  rcases hb with rfl | rfl | rfl | rfl | rfl
  · -- an array: its number of elements is there
    obtain ⟨n, hn, hcount⟩ := hheader (IsCount reserve) fun h => hwell (.count h)
    rcases hcount with rfl | ⟨hpos, hroom⟩
    · rw [parseValue_nullArray_line reserve hline hn] at hnone
      cases hnone
    · rw [parseValue_eq] at hnone
      replace hnone : parseArray reserve (parseValue reserve) (42 :: line ++ CRLF ++ rest) 0
          = .ok (none, 0) := hnone
      rw [parseArray_line hline, headerNumber_iff.mpr hn] at hnone
      dsimp only at hnone
      rw [if_neg (by omega), if_neg (by omega), hroom] at hnone
      dsimp only at hnone
      have hlength : (42 :: line ++ CRLF).length = line.length + 3 := by simp [CRLF]
      split at hnone
      · cases hnone
      · next p hstop =>
        rw [← hlength] at hstop
        -- the elements stop at one, which can be completed, and the others are padding
        obtain ⟨e, vs, hvs⟩ := complete_elements hvalue (fun text rest' elements hrest hframes hcount h =>
          hwell (hrest ▸ .element hline hn hframes (by omega) h)) hstop
        rw [List.append_assoc (42 :: line ++ CRLF)] at hvs
        refine ⟨e, .array vs, ?_⟩
        rw [List.append_assoc (42 :: line ++ CRLF)]
        exact value_of_elements hline hn hpos hroom hvs
      · cases hnone
  · rw [parseValue_simpleString_line reserve hline] at hnone
    cases hnone
  · rw [parseValue_error_line reserve hline] at hnone
    cases hnone
  · obtain ⟨n, hn, -⟩ := hheader (fun _ => True) fun h => hwell (.integer h)
    rw [parseValue_integer_line reserve hline hn] at hnone
    cases hnone
  · obtain ⟨n, hn, hlength⟩ := hheader (-1 ≤ ·) fun h => hwell (.length h)
    rcases hlength.eq_or_lt with rfl | hpos
    · rw [parseValue_nullString_line reserve hline hn] at hnone
      cases hnone
    · obtain ⟨n, rfl⟩ := Int.eq_ofNat_of_zero_le (show 0 ≤ n by omega)
      -- a string whose bytes are all there would have been read
      refine complete_bulkString hline hn (fun hend => ?_) hwell
      obtain ⟨rest', hrest, hdata⟩ := split_of_terminator hend
      have hnumber : ReadsAs line (rest.take n).length := by rwa [hdata]
      have hvalue := parseValue_bulkString_line reserve hline hnumber rest'
      rw [List.append_assoc, ← hrest, hnone] at hvalue
      cases hvalue

/-- **A text that is not malformed can be completed.** By induction on the text: the element that an
array stops at is shorter. -/
theorem completable_of_not_malformed (hzero : reserve 0 = none) {s : Bytes} :
    parseValue reserve s 0 = .ok (none, 0) → ¬ Malformed reserve s → Completable reserve s := by
  induction hk : s.length using Nat.strong_induction_on generalizing s with
  | _ k ih =>
    intro hnone hwell
    cases s with
    | nil =>
      have hempty : ¬ CRLF <:+: ([] : Bytes) := by decide
      exact ⟨43 :: [] ++ CRLF, .simpleString [], parseValue_simpleString_line reserve hempty []⟩
    | cons b t =>
      by_cases hb : IsTypeByte b
      · -- the header is not complete, or it is and something behind it is not
        rcases line_cases t with ht | ⟨line, rest, rfl, hline⟩
        · exact complete_unended hzero ht hb hwell
        · replace hnone : parseValue reserve (b :: line ++ CRLF ++ rest) 0 = .ok (none, 0) := hnone
          refine complete_ended hb hline (fun r hr => ih r.length ?_ rfl) hnone hwell
          rw [← hk, List.length_cons, List.length_append]
          omega
      · refine ⟨CRLF, .array ((inlineArgs (b :: t)).map .bulkString), ?_⟩
        rw [parseValue_inline (b := b) rfl hb] at hnone ⊢
        rcases line_cases (b :: t) with ht | ⟨line, rest, hs, hline⟩
        · have hread := parseInline_line ht []
          rw [List.append_nil] at hread
          rw [hread, List.length_append]
          rfl
        · rw [hs, parseInline_line hline] at hnone
          cases hnone

end Complete

/-! ### The command loop -/

section Loop

variable {reserve : Reserve}

/-- A round of the command loop is `parseValue`, which reads lines as well. -/
theorem parseCommand_eq (s : Bytes) : parseCommand reserve s 0 = parseValue reserve s 0 := by
  unfold parseCommand
  cases hb : s[0]? with
  | none => rw [parseValue_eq, parseByType_of_none hb]
  | some b =>
    dsimp only
    split
    · rfl
    · next hplain => exact (parseValue_inline hb hplain).symm

/-- `parse` finds a command if there is a value at the head of the buffer. -/
theorem parse_of_value {s : Bytes} {v : RespValue} (h : parseValue reserve s 0 = .ok (some v, s.length)) :
    parse reserve s = .ok ⟨[v], s.length⟩ :=
  parse_of_frame (by rw [frame, parseCommand_eq, h])

theorem frame_eq (s : Bytes) : frame reserve s = match parseValue reserve s 0 with
    | .error e => .error e
    | .ok (none, _) => .ok none
    | .ok (some v, q) => .ok (some (v, q)) := by
  rewrite [frame, parseCommand_eq]
  rfl

/-- `parse` has an outcome on a buffer that is not empty: the commands behind the value at its head, or
none if there is no value. -/
theorem parse_cases {s : Bytes} (hs : s ≠ []) {r : ParseResult} (h : parse reserve s = .ok r) :
    (∃ v q, parseValue reserve s 0 = .ok (some v, q) ∧ r.commands ≠ []) ∨
      parseValue reserve s 0 = .ok (none, 0) ∧ r.commands = [] := by
  rw [parse_eq_drain] at h
  cases hvalue : parseValue reserve s 0 with
  | error e =>
    rw [Incremental.IsIncremental.drain_of_error hs (by rw [frame_eq, hvalue])] at h
    cases h
  | ok x =>
    obtain ⟨_ | v, q⟩ := x
    · -- no value is read at the head, so nothing is consumed
      obtain rfl := parseValue_none hvalue
      rw [Incremental.IsIncremental.drain_of_none (by rw [frame_eq, hvalue])] at h
      obtain rfl := Except.ok.inj h
      exact .inr ⟨rfl, rfl⟩
    · rw [isIncremental_frame.drain_of_item (b := v) (n := q) (by rw [frame_eq, hvalue])] at h
      cases hrest : Incremental.drain (frame reserve) (s.drop q) with
      | error e => rw [hrest] at h; cases h
      | ok y =>
        rw [hrest] at h
        obtain rfl := Except.ok.inj h
        exact .inl ⟨v, q, rfl, nofun⟩

end Loop

/-- **No progress means incomplete** if and only if the frame at the head of the buffer is not malformed: then some
bytes make it a command, and otherwise the buffer has no command whatever follows. The allocator has room for no
elements, and with room for some it has room for fewer. A malformed frame stays malformed under every continuation.
For the others a continuation is constructed, by induction on the text: the rest of the frame that is open, and
smallest frames for those that are missing. -/
theorem completable_iff {reserve : Reserve} (hzero : reserve 0 = none) (hroom : ShrinksRoom reserve)
    {b : Bytes} (hb : b ≠ []) {q : ℕ} (hnone : parse reserve b = .ok ⟨[], q⟩) :
    (∃ e r, parse reserve (b ++ e) = .ok r ∧ r.commands ≠ []) ↔ ¬ Malformed reserve b := by
  constructor
  · rintro ⟨e, r, hparse, hcommands⟩ hbad
    rcases parse_cases (by simp [hb]) hparse with ⟨v, q, hvalue, -⟩ | ⟨-, hempty⟩
    · exact hbad.not_value hzero hroom e v q hvalue
    · exact hcommands hempty
  · intro hwell
    have hvalue : parseValue reserve b 0 = .ok (none, 0) := by
      rcases parse_cases hb hnone with ⟨v, q, -, hcommands⟩ | ⟨hvalue, -⟩
      · exact absurd rfl hcommands
      · exact hvalue
    obtain ⟨e, v, hread⟩ := completable_of_not_malformed hzero hvalue hwell
    exact ⟨e, _, parse_of_value hread, nofun⟩

/-- An array with an element missing, of which two bytes are there. -/
theorem completable_get :
    (∃ e r, parse (fun _ => none) (str "*2\r\n$3\r\nGET\r\n$1" ++ e) = .ok r ∧ r.commands ≠ []) ↔
      ¬ Malformed (fun _ => none) (str "*2\r\n$3\r\nGET\r\n$1") :=
  completable_iff rfl (fun _ _ _ _ => rfl) (by decide) (q := 0) rfl

/-- `*-2` is no array, and nothing that follows makes it one. -/
theorem wedged : ¬ ∀ b : Bytes, b ≠ [] → (∃ q, parse (fun _ => none) b = .ok ⟨[], q⟩) →
    ∃ e r, parse (fun _ => none) (b ++ e) = .ok r ∧ r.commands ≠ [] := by
  intro h
  obtain ⟨e, r, hparse, hcommands⟩ := h (str "*-2\r\n") (by decide) ⟨0, rfl⟩
  have hminus : ReadsAs (str "-2") (-2) := headerNumber_iff.mp (by decide)
  have hbad : Malformed (fun _ => none) (str "*-2\r\n") := by
    have hline : ¬ CRLF <:+: str "-2" := by decide
    refine .count (.ended [] hline fun n hn => ?_)
    obtain rfl := readsAs_unique hn hminus
    rintro (hnull | ⟨hpos, -⟩)
    · exact absurd hnull (by decide)
    · exact absurd hpos (by decide)
  have hne : str "*-2\r\n" ++ e ≠ [] := List.append_ne_nil_of_left_ne_nil (by decide) e
  rcases parse_cases hne hparse with ⟨v, q, hvalue, -⟩ | ⟨-, hempty⟩
  · exact hbad.not_value rfl (fun _ _ _ _ => rfl) e v q hvalue
  · exact hcommands hempty

end RespParser
end RedisDb
