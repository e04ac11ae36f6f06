import RedisDb.Protocol.RespParser
import RedisDb.Lib.Incremental

/-!
# What the parsers depend on

Four facts about every parser of `RespParser`, at every cursor.

* `parseValue_lt` — a value moves the cursor forward, inside the buffer; without a value the cursor is back where it
  was (`parseValue_none`).
* `parseValue_eq` — the recursion equation of the source: the depth bound of `parseValueFuel` is never the reason for
  an answer.
* `parseValue_shift` — the answer depends only on the buffer from the cursor on.
* `parseValue_append` — an answer other than "no value" is unchanged by any continuation of the buffer.

They are proved from the inside out. For the parsers that do not nest all four are `IsPlain`, and most of these parse
one line by a function of the line (`IsPlain.ofLine`). The element loop, an array and the switch on the type byte have
them if the parser of the elements has them, and only at cursors further on: this is what `parseElements_congr` and
its companions ask for, and it is why two depth bounds agree as soon as both cover the rest of the buffer.
`parseValue` has them by induction on the bound.

The last two make one round of the command loop an incremental decoder (`isIncremental_frame`), and `parse` the drain
of it (`parse_eq_drain`). How the bytes of a connection are cut into reads then does not matter, by the theory of such
decoders.
-/

namespace RedisDb
namespace RespParser

/-- The outcome is a value or an exception, not a request for more input. -/
def Settled {α : Type} (r : Except Exn (Option α × ℕ)) : Prop :=
  ∀ pos, r ≠ .ok (none, pos)

/-- The outcome with the cursor moved by `k`. -/
def shift {α : Type} (k : ℕ) (r : Except Exn (Option α × ℕ)) : Except Exn (Option α × ℕ) :=
  r.map fun x => (x.1, k + x.2)

/-- A value is an answer. -/
@[simp] theorem settled_some {α : Type} (v : α) (q : ℕ) :
    Settled (.ok (some v, q)) := by intro pos h; cases h

/-- So is an exception. -/
@[simp] theorem settled_error {α : Type} (e : Exn) :
    Settled (.error e : Except Exn (Option α × ℕ)) := by intro pos h; cases h

/-- No value is a request for more input. -/
@[simp] theorem not_settled_none {α : Type} (q : ℕ) :
    ¬ Settled (.ok (none, q) : Except Exn (Option α × ℕ)) := fun h => h q rfl

/-- The cursor moves. -/
@[simp] theorem shift_ok {α : Type} (k : ℕ) (o : Option α) (q : ℕ) :
    shift k (.ok (o, q)) = .ok (o, k + q) := rfl

/-- An exception has no cursor. -/
@[simp] theorem shift_error {α : Type} (k : ℕ) (e : Exn) :
    shift k (.error e : Except Exn (Option α × ℕ)) = .error e := rfl

/-! ### Lines -/

/-- The first line terminator is where `crlfOffset` says. -/
theorem crlfOffset_spec {s : Bytes} {k : ℕ} (h : crlfOffset s = some k) :
    k + 2 ≤ s.length ∧ s = s.take k ++ CRLF ++ s.drop (k + 2) := by
  induction s generalizing k with
  | nil => exact absurd h (by simp [crlfOffset])
  | cons a s ih =>
    cases s with
    | nil => exact absurd h (by simp [crlfOffset])
    | cons b t =>
      simp only [crlfOffset] at h
      -- the line ends here, or further on by one
      split at h
      · next hab =>
        obtain ⟨rfl, rfl⟩ := hab
        obtain rfl := Option.some.inj h
        exact ⟨by simp, by simp [CRLF]⟩
      · obtain ⟨k', hk', rfl⟩ := Option.map_eq_some_iff.mp h
        obtain ⟨h1, h2⟩ := ih hk'
        refine ⟨by rw [List.length_cons]; omega, ?_⟩
        rw [List.take_succ_cons, List.cons_append, List.cons_append, Nat.add_right_comm,
          List.drop_succ_cons, ← h2]

/-- A line terminator found stays the first one. -/
theorem crlfOffset_append {s : Bytes} {k : ℕ} (h : crlfOffset s = some k) (t : Bytes) :
    crlfOffset (s ++ t) = some k := by
  induction s generalizing k with
  | nil => exact absurd h (by simp [crlfOffset])
  | cons a s ih =>
    cases s with
    | nil => exact absurd h (by simp [crlfOffset])
    | cons b u =>
      simp only [crlfOffset, List.cons_append] at h ⊢
      split
      · next hab => rwa [if_pos hab] at h
      · next hab =>
        rw [if_neg hab] at h
        obtain ⟨k', hk', rfl⟩ := Option.map_eq_some_iff.mp h
        have := ih hk'
        rw [List.cons_append] at this
        rw [this, Option.map_some]

/-- The line up to the first terminator, and the cursor behind it. -/
theorem readLine_eq (buffer : Bytes) (pos : ℕ) :
    readLine buffer pos = (crlfOffset (buffer.drop pos)).map
      fun k => ((buffer.drop pos).take k, pos + k + 2) := by
  unfold readLine findCRLF
  cases crlfOffset (buffer.drop pos) with
  | none => rfl
  | some k => simp

/-- A line ends, with its terminator, inside the buffer. -/
theorem readLine_le {s : Bytes} {p q : ℕ} {line : Bytes} (h : readLine s p = some (line, q)) :
    p + 2 ≤ q ∧ q ≤ s.length := by
  rw [readLine_eq] at h
  obtain ⟨k, hk, heq⟩ := Option.map_eq_some_iff.mp h
  obtain ⟨-, rfl⟩ := Prod.mk.inj heq
  have h1 := (crlfOffset_spec hk).1
  rw [List.length_drop] at h1
  omega

/-- A line that is there stays the same. -/
theorem readLine_append {s : Bytes} {p q : ℕ} {line : Bytes}
    (h : readLine s p = some (line, q)) (t : Bytes) : readLine (s ++ t) p = some (line, q) := by
  have hle := readLine_le h
  rw [readLine_eq] at h ⊢
  obtain ⟨k, hk, heq⟩ := Option.map_eq_some_iff.mp h
  have h1 := (crlfOffset_spec hk).1
  rw [List.drop_append_of_le_length (by omega), crlfOffset_append hk, Option.map_some, ← heq,
    List.take_append_of_le_length (by omega)]

/-- From a cursor on, behind something else. -/
theorem drop_length_add (pre s : Bytes) (p : ℕ) :
    (pre ++ s).drop (pre.length + p) = s.drop p := by
  rw [← List.drop_drop, List.drop_left]

/-- What is before the cursor does not matter to the line. -/
theorem readLine_shift (pre s : Bytes) (p : ℕ) :
    readLine (pre ++ s) (pre.length + p)
      = (readLine s p).map fun x => (x.1, pre.length + x.2) := by
  simp only [readLine_eq, drop_length_add]
  cases crlfOffset (s.drop p) with
  | none => rfl
  | some k => simp only [Option.map_some, Nat.add_assoc]

/-! ### The parsers that do not nest -/

/-- The facts this module is about, for a parser that throws nothing. -/
structure IsPlain (parser : Bytes → ℕ → Option RespValue × ℕ) : Prop where
  /-- A value moves the cursor forward. -/
  lt : ∀ {s p v q}, parser s p = (some v, q) → p < q ∧ q ≤ s.length
  /-- Without a value the cursor is restored. -/
  none : ∀ {s p q}, parser s p = (none, q) → q = p
  /-- A value stays under continuation. -/
  append : ∀ {s p v q}, parser s p = (some v, q) → ∀ t, parser (s ++ t) p = (some v, q)
  /-- Only the buffer from the cursor on matters. -/
  shift : ∀ pre s p, parser (pre ++ s) (pre.length + p)
    = ((parser s p).1, pre.length + (parser s p).2)

/-- A parser of one line, `off` bytes behind the cursor, whose outcome is a function of the line. -/
theorem IsPlain.ofLine {parser : Bytes → ℕ → Option RespValue × ℕ} (off : ℕ)
    (f : Bytes → Option RespValue)
    (h : ∀ s p, parser s p = match readLine s (p + off) with
      | .none => (.none, p)
      | .some (line, q) =>
        match f line with
        | .none => (.none, p)
        | .some v => (.some v, q)) : IsPlain parser where
  -- the cursor is behind the line
  lt := by
    intro s p v q hv
    rw [h] at hv
    split at hv
    · cases hv
    · next line q' hl =>
      split at hv
      · cases hv
      · cases hv
        have := readLine_le hl
        omega
  none := by
    intro s p q hv
    rw [h] at hv
    split at hv
    · cases hv; rfl
    · split at hv
      · cases hv; rfl
      · cases hv
  -- the line is the same one
  append := by
    intro s p v q hv t
    rw [h] at hv ⊢
    split at hv
    · cases hv
    · next hl => rw [readLine_append hl]; exact hv
  -- the position of the line moves with what stands before
  shift := by
    intro pre s p
    rw [h, h, Nat.add_assoc, readLine_shift]
    cases readLine s (p + off) with
    | none => rfl
    | some x =>
      simp only [Option.map_some]
      cases f x.1 <;> rfl

/-- A status is a line. -/
theorem isPlain_parseSimpleString : IsPlain parseSimpleString :=
  .ofLine 1 (fun line => some (.simpleString line)) fun _ _ => rfl

/-- So is an error. -/
theorem isPlain_parseError : IsPlain parseError :=
  .ofLine 1 (fun line => some (.error line)) fun _ _ => rfl

/-- So is a number, if it can be converted. -/
theorem isPlain_parseInteger : IsPlain parseInteger :=
  .ofLine 1 (fun line => (headerNumber line).map fun n => .integer (Int64.ofInt n)) fun s p => by
    unfold parseInteger
    cases readLine s (p + 1) with
    | none => rfl
    | some x =>
      dsimp only
      cases headerNumber x.1 <;> rfl

/-- So is an inline command. -/
theorem isPlain_parseInline : IsPlain parseInline :=
  .ofLine 0 (fun line => if line = [] then some (.array [])
      else some (.array ((inlineArgs line).map .bulkString))) fun s p => by
    unfold parseInline
    rw [Nat.add_zero]
    cases readLine s p with
    | none => rfl
    | some x =>
      dsimp only
      split <;> rfl

/-- **A string** is a line with its length, and so many bytes after it with a terminator. A continuation only adds
bytes behind those that are looked at. -/
theorem isPlain_parseBulkString : IsPlain parseBulkString where
  lt := by
    intro s p v q hv
    unfold parseBulkString at hv
    split at hv
    · cases hv
    · next line p' hl =>
      have hle := readLine_le hl
      split at hv
      · cases hv
      · split_ifs at hv <;> cases hv <;> omega
  none := by
    intro s p q hv
    unfold parseBulkString at hv
    split at hv
    · cases hv; rfl
    · split at hv
      · cases hv; rfl
      · split_ifs at hv <;> cases hv <;> rfl
  append := by
    intro s p v q hv t
    unfold parseBulkString at hv ⊢
    split at hv
    · cases hv
    · next line p' hl =>
      have hle := readLine_le hl
      rw [readLine_append hl]
      dsimp only
      split at hv
      · cases hv
      · next n hn =>
        by_cases h1 : n = -1
        · rw [if_pos h1] at hv ⊢; exact hv
        by_cases h2 : n < 0
        · rw [if_neg h1, if_pos h2] at hv; cases hv
        by_cases h3 : s.length < p' + n.toNat + 2
        · rw [if_neg h1, if_neg h2, if_pos h3] at hv; cases hv
        -- the string is there, and so is all that is looked at
        have h3' : ¬ (s ++ t).length < p' + n.toNat + 2 := by
          rw [List.length_append]; omega
        rw [if_neg h1, if_neg h2, if_neg h3] at hv
        rw [if_neg h1, if_neg h2, if_neg h3', List.getElem?_append_left (by omega),
          List.getElem?_append_left (by omega), List.drop_append_of_le_length hle.2,
          List.take_append_of_le_length (by rw [List.length_drop]; omega)]
        exact hv
  shift := by
    intro pre s p
    unfold parseBulkString
    rw [Nat.add_assoc, readLine_shift]
    cases readLine s (p + 1) with
    | none => rfl
    | some x =>
      obtain ⟨line, p'⟩ := x
      simp only [Option.map_some]
      cases headerNumber line with
      | none => rfl
      | some n =>
        dsimp only
        -- what is read of the text lies behind `pre`, as far as it did from the beginning
        have hlen : ((pre ++ s).length < pre.length + p' + n.toNat + 2)
            = (s.length < p' + n.toNat + 2) := by
          rw [List.length_append]; exact propext (by omega)
        have hget : ∀ i, (pre ++ s)[pre.length + i]? = s[i]? := by
          intro i
          rw [List.getElem?_append_right (by omega), Nat.add_sub_cancel_left]
        have h5 : (pre ++ s)[pre.length + p' + n.toNat]? = s[p' + n.toNat]? := by
          rw [Nat.add_assoc, hget]
        have h6 : (pre ++ s)[pre.length + p' + n.toNat + 1]? = s[p' + n.toNat + 1]? := by
          rw [Nat.add_assoc, Nat.add_assoc, hget, Nat.add_assoc]
        simp only [hlen, h5, h6, drop_length_add]
        -- the branches of the two sides are taken together
        split_ifs <;> simp only [Nat.add_assoc]

/-! ### The element loop -/

section Elements

variable {parser parser' : Bytes → ℕ → Out}

/-- Reading elements never moves the cursor back, nor out of the buffer. -/
theorem parseElements_le {s : Bytes} {count : ℕ}
    (hlt : ∀ {p v q}, parser s p = .ok (some v, q) → p < q ∧ q ≤ s.length) :
    ∀ {p vs q}, p ≤ s.length → parseElements parser s count p = .ok (some vs, q) →
      p ≤ q ∧ q ≤ s.length := by
  induction count with
  | zero =>
    intro p vs q hp h
    cases h
    exact ⟨le_rfl, hp⟩
  | succ count ih =>
    intro p vs q hp h
    simp only [parseElements] at h
    split at h
    · cases h
    · cases h
    · next v p' hv =>
      -- each element moves the cursor on
      have h1 := hlt hv
      split at h
      · cases h
      · cases h
      · next vs' p'' hvs =>
        cases h
        have h2 := ih h1.2 hvs
        omega

/-- Parsers that agree from the cursor on read the same elements. -/
theorem parseElements_congr {s : Bytes} {count : ℕ}
    (hlt : ∀ {p v q}, parser s p = .ok (some v, q) → p < q ∧ q ≤ s.length) :
    ∀ {p}, (∀ q, p ≤ q → parser s q = parser' s q) →
      parseElements parser s count p = parseElements parser' s count p := by
  induction count with
  | zero => intro p _; rfl
  | succ count ih =>
    intro p h
    simp only [parseElements, ← h p le_rfl]
    cases hv : parser s p with
    | error e => rfl
    | ok x =>
      obtain ⟨o, p'⟩ := x
      cases o with
      | none => rfl
      | some v =>
        -- the other elements are read behind this one
        have hp' := hlt hv
        have hrest := ih (p := p') fun q hq => h q (by omega)
        simp only [hrest]

/-- What is before the cursor does not matter to the elements, if it does not matter to each. -/
theorem parseElements_shift {pre s : Bytes} {count : ℕ}
    (hlt : ∀ {p v q}, parser s p = .ok (some v, q) → p < q ∧ q ≤ s.length) :
    ∀ {p}, (∀ q, p ≤ q → parser' (pre ++ s) (pre.length + q) = shift pre.length (parser s q)) →
      parseElements parser' (pre ++ s) count (pre.length + p)
        = shift pre.length (parseElements parser s count p) := by
  induction count with
  | zero => intro p _; rfl
  | succ count ih =>
    intro p h
    simp only [parseElements, h p le_rfl]
    cases hv : parser s p with
    | error e => rfl
    | ok x =>
      obtain ⟨o, p'⟩ := x
      cases o with
      | none => rfl
      | some v =>
        -- the other elements are read behind this one
        have hp' := hlt hv
        have hrest := ih (p := p') fun q hq => h q (by omega)
        simp only [shift_ok, hrest]
        cases parseElements parser s count p' with
        | error e => rfl
        | ok y =>
          obtain ⟨o', p''⟩ := y
          cases o' <;> rfl

/-- The elements stay under continuation, if each does. -/
theorem parseElements_append {s t : Bytes} {count : ℕ}
    (hlt : ∀ {p v q}, parser s p = .ok (some v, q) → p < q ∧ q ≤ s.length) :
    ∀ {p}, (∀ q, p ≤ q → Settled (parser s q) → parser' (s ++ t) q = parser s q) →
      Settled (parseElements parser s count p) →
      parseElements parser' (s ++ t) count p = parseElements parser s count p := by
  induction count with
  | zero => intro p _ _; rfl
  | succ count ih =>
    intro p h hset
    simp only [parseElements] at hset ⊢
    cases hv : parser s p with
    | error e => rw [h p le_rfl (by rw [hv]; simp), hv]
    | ok x =>
      obtain ⟨o, p'⟩ := x
      cases o with
      | none => rw [hv] at hset; exact absurd hset (by simp)
      | some v =>
        have hp' := hlt hv
        rw [h p le_rfl (by rw [hv]; simp), hv]
        rw [hv] at hset
        -- if the whole is settled, so are the other elements
        have hset' : Settled (parseElements parser s count p') := by
          intro pos heq
          simp only [heq] at hset
          exact absurd hset (by simp)
        have hrest := ih (p := p') (fun q hq => h q (by omega)) hset'
        simp only [hrest]

end Elements

/-! ### Arrays and the type switch -/

section Switch

variable {reserve : Reserve} {parser parser' : Bytes → ℕ → Out}

/-- An array moves the cursor forward, past its header. -/
theorem parseArray_lt {s : Bytes} {p q : ℕ} {v : RespValue}
    (hlt : ∀ {p v q}, parser s p = .ok (some v, q) → p < q ∧ q ≤ s.length)
    (h : parseArray reserve parser s p = .ok (some v, q)) : p < q ∧ q ≤ s.length := by
  unfold parseArray at h
  split at h
  · cases h
  · next line p' hl =>
    -- the header alone moves the cursor on, and the elements do not move it back
    have hle := readLine_le hl
    split at h
    · cases h
    · next n hn =>
      split_ifs at h with h1 h2
      · cases h; omega
      · cases h
      · split at h
        · cases h
        · split at h
          · cases h
          · cases h
          · next vs p'' hvs =>
            cases h
            have := parseElements_le hlt hle.2 hvs
            omega

/-- Without all its elements the cursor is restored. -/
theorem parseArray_none {s : Bytes} {p q : ℕ}
    (h : parseArray reserve parser s p = .ok (none, q)) : q = p := by
  unfold parseArray at h
  split at h
  · cases h; rfl
  · split at h
    · cases h; rfl
    · split_ifs at h with h1 h2
      · cases h
      · cases h; rfl
      · split at h
        · cases h
        · split at h <;> cases h
          rfl

/-- The elements are parsed behind the cursor of the array. -/
theorem parseArray_congr {s : Bytes} {p : ℕ}
    (hlt : ∀ {p v q}, parser s p = .ok (some v, q) → p < q ∧ q ≤ s.length)
    (h : ∀ q, p < q → parser s q = parser' s q) :
    parseArray reserve parser s p = parseArray reserve parser' s p := by
  unfold parseArray
  cases hl : readLine s (p + 1) with
  | none => rfl
  | some x =>
    obtain ⟨line, p'⟩ := x
    have hle := readLine_le hl
    have hcongr : ∀ count, parseElements parser s count p' = parseElements parser' s count p' :=
      fun _ => parseElements_congr hlt fun q hq => h q (by omega)
    simp only [hcongr]

/-- What is before the cursor does not matter. -/
theorem parseArray_shift {pre s : Bytes} {p : ℕ}
    (hlt : ∀ {p v q}, parser s p = .ok (some v, q) → p < q ∧ q ≤ s.length)
    (h : ∀ q, p < q → parser' (pre ++ s) (pre.length + q) = shift pre.length (parser s q)) :
    parseArray reserve parser' (pre ++ s) (pre.length + p)
      = shift pre.length (parseArray reserve parser s p) := by
  unfold parseArray
  rw [Nat.add_assoc, readLine_shift]
  cases hl : readLine s (p + 1) with
  | none => rfl
  | some x =>
    obtain ⟨line, p'⟩ := x
    have hle := readLine_le hl
    -- the elements move with the header
    have hshift : ∀ count, parseElements parser' (pre ++ s) count (pre.length + p')
        = shift pre.length (parseElements parser s count p') :=
      fun _ => parseElements_shift hlt fun q hq => h q (by omega)
    simp only [Option.map_some, hshift]
    cases headerNumber line with
    | none => rfl
    | some n =>
      dsimp only
      split_ifs
      · rfl
      · rfl
      · cases reserve n.toNat with
        | some e => rfl
        | none =>
          dsimp only
          cases parseElements parser s n.toNat p' with
          | error e => rfl
          | ok y =>
            obtain ⟨o, p''⟩ := y
            cases o <;> rfl

/-- An array that is complete stays, and so does one that is refused. -/
theorem parseArray_append {s t : Bytes} {p : ℕ}
    (hlt : ∀ {p v q}, parser s p = .ok (some v, q) → p < q ∧ q ≤ s.length)
    (h : ∀ q, p < q → Settled (parser s q) → parser' (s ++ t) q = parser s q)
    (hset : Settled (parseArray reserve parser s p)) :
    parseArray reserve parser' (s ++ t) p = parseArray reserve parser s p := by
  unfold parseArray at hset ⊢
  cases hl : readLine s (p + 1) with
  | none => simp [hl] at hset
  | some x =>
    obtain ⟨line, p'⟩ := x
    have hle := readLine_le hl
    rw [readLine_append hl]
    simp only [hl] at hset
    cases hn : headerNumber line with
    | none => simp [hn] at hset
    | some n =>
      simp only [hn] at hset ⊢
      split_ifs at hset ⊢
      · rfl
      · rfl
      · cases hr : reserve n.toNat with
        | some e => rfl
        | none =>
          simp only [hr] at hset ⊢
          -- the outcome is settled, so the one of the elements is
          have hset' : Settled (parseElements parser s n.toNat p') := by
            intro pos heq
            simp only [heq] at hset
            exact absurd hset (by simp)
          rw [parseElements_append hlt (fun q hq => h q (by omega)) hset']

/-- The type byte decides between an array and a parser that does not nest. -/
theorem parseByType_dispatch (reserve : Reserve) (b : UInt8) :
    (∀ (parser : Bytes → ℕ → Out) s p, s[p]? = some b →
      parseByType reserve parser s p = parseArray reserve parser s p) ∨
    ∃ plain, IsPlain plain ∧ ∀ (parser : Bytes → ℕ → Out) s p, s[p]? = some b →
      parseByType reserve parser s p = .ok (plain s p) := by
  -- only the array calls the parser again
  by_cases h42 : b = 42
  · exact Or.inl fun parser s p hb => by rw [parseByType, hb, h42]; rfl
  refine Or.inr ?_
  by_cases h43 : b = 43
  · exact ⟨_, isPlain_parseSimpleString, fun parser s p hb => by rw [parseByType, hb, h43]; rfl⟩
  by_cases h45 : b = 45
  · exact ⟨_, isPlain_parseError, fun parser s p hb => by rw [parseByType, hb, h45]; rfl⟩
  by_cases h58 : b = 58
  · exact ⟨_, isPlain_parseInteger, fun parser s p hb => by rw [parseByType, hb, h58]; rfl⟩
  by_cases h36 : b = 36
  · exact ⟨_, isPlain_parseBulkString, fun parser s p hb => by rw [parseByType, hb, h36]; rfl⟩
  refine ⟨_, isPlain_parseInline, fun parser s p hb => ?_⟩
  rw [parseByType, hb]
  split <;> simp_all

/-- At the end of the buffer there is no type byte. -/
theorem parseByType_of_none {s : Bytes} {p : ℕ} (h : s[p]? = none) :
    parseByType reserve parser s p = .ok (none, p) := by
  rw [parseByType, h]

/-- A value of any type moves the cursor forward. -/
theorem parseByType_lt {s : Bytes} {p q : ℕ} {v : RespValue}
    (hlt : ∀ {p v q}, parser s p = .ok (some v, q) → p < q ∧ q ≤ s.length)
    (h : parseByType reserve parser s p = .ok (some v, q)) : p < q ∧ q ≤ s.length := by
  cases hb : s[p]? with
  | none => rw [parseByType_of_none hb] at h; cases h
  | some b =>
    rcases parseByType_dispatch reserve b with harr | ⟨plain, hplain, heq⟩
    · exact parseArray_lt hlt (harr parser s p hb ▸ h)
    · exact hplain.lt (Except.ok.inj (heq parser s p hb ▸ h))

/-- Without a value the cursor is restored. -/
theorem parseByType_none {s : Bytes} {p q : ℕ}
    (h : parseByType reserve parser s p = .ok (none, q)) : q = p := by
  cases hb : s[p]? with
  | none => rw [parseByType_of_none hb] at h; cases h; rfl
  | some b =>
    rcases parseByType_dispatch reserve b with harr | ⟨plain, hplain, heq⟩
    · exact parseArray_none (harr parser s p hb ▸ h)
    · exact hplain.none (Except.ok.inj (heq parser s p hb ▸ h))

/-- Only elements behind the cursor are parsed by the parser that is given. -/
theorem parseByType_congr {s : Bytes} {p : ℕ}
    (hlt : ∀ {p v q}, parser s p = .ok (some v, q) → p < q ∧ q ≤ s.length)
    (h : ∀ q, p < q → parser s q = parser' s q) :
    parseByType reserve parser s p = parseByType reserve parser' s p := by
  unfold parseByType
  rw [parseArray_congr hlt h]

/-- What is before the cursor does not matter. -/
theorem parseByType_shift {pre s : Bytes} {p : ℕ}
    (hlt : ∀ {p v q}, parser s p = .ok (some v, q) → p < q ∧ q ≤ s.length)
    (h : ∀ q, p < q → parser' (pre ++ s) (pre.length + q) = shift pre.length (parser s q)) :
    parseByType reserve parser' (pre ++ s) (pre.length + p)
      = shift pre.length (parseByType reserve parser s p) := by
  have hget : (pre ++ s)[pre.length + p]? = s[p]? := by
    rw [List.getElem?_append_right (by omega), Nat.add_sub_cancel_left]
  cases hb : s[p]? with
  | none => rw [parseByType_of_none hb, parseByType_of_none (hget.trans hb)]; rfl
  | some b =>
    rcases parseByType_dispatch reserve b with harr | ⟨plain, hplain, heq⟩
    · rw [harr _ _ _ (hget.trans hb), harr _ _ _ hb, parseArray_shift hlt h]
    · rw [heq _ _ _ (hget.trans hb), heq _ _ _ hb, hplain.shift]
      rfl

/-- An answer stays under continuation. -/
theorem parseByType_append {s t : Bytes} {p : ℕ}
    (hlt : ∀ {p v q}, parser s p = .ok (some v, q) → p < q ∧ q ≤ s.length)
    (h : ∀ q, p < q → Settled (parser s q) → parser' (s ++ t) q = parser s q)
    (hset : Settled (parseByType reserve parser s p)) :
    parseByType reserve parser' (s ++ t) p = parseByType reserve parser s p := by
  cases hb : s[p]? with
  | none => rw [parseByType_of_none hb] at hset; exact absurd hset (by simp)
  | some b =>
    -- the byte that decides is the same with more text behind
    have hget : (s ++ t)[p]? = some b := by
      rw [List.getElem?_append_left (List.getElem?_eq_some_iff.mp hb).1, hb]
    rcases parseByType_dispatch reserve b with harr | ⟨plain, hplain, heq⟩
    · rw [harr _ _ _ hb] at hset
      rw [harr _ _ _ hget, harr _ _ _ hb, parseArray_append hlt h hset]
    · rw [heq _ _ _ hb] at hset
      rw [heq _ _ _ hget, heq _ _ _ hb]
      cases hv : plain s p with
      | mk o q =>
        cases o with
        | none => rw [hv] at hset; exact absurd hset (by simp)
        | some v => rw [hplain.append hv]

end Switch

/-! ### `parseValue` -/

section ParseValue

variable {reserve : Reserve}

/-- With any depth bound a value moves the cursor forward. By induction on the bound. -/
theorem parseValueFuel_lt {fuel : ℕ} : ∀ {s : Bytes} {p q : ℕ} {v : RespValue},
    parseValueFuel reserve fuel s p = .ok (some v, q) → p < q ∧ q ≤ s.length := by
  induction fuel with
  | zero => intro s p q v h; cases h
  | succ fuel ih => intro s p q v h; exact parseByType_lt ih h

/-- Every depth bound that covers the rest of the buffer gives the same answer. By induction on the
smaller of the two bounds; the elements of an array start behind its header. -/
theorem parseValueFuel_eq {m n : ℕ} : ∀ {s : Bytes} {p : ℕ}, s.length - p < m → m ≤ n →
    parseValueFuel reserve m s p = parseValueFuel reserve n s p := by
  induction m generalizing n with
  | zero => intro s p h _; exact absurd h (Nat.not_lt_zero _)
  | succ m ih =>
    intro s p hm hmn
    obtain ⟨n, rfl⟩ : ∃ k, n = k + 1 := ⟨n - 1, by omega⟩
    change parseByType reserve (parseValueFuel reserve m) s p
      = parseByType reserve (parseValueFuel reserve n) s p
    by_cases hp : p < s.length
    · exact parseByType_congr parseValueFuel_lt fun q hq => ih (by omega) (by omega)
    · have hnone : s[p]? = none := List.getElem?_eq_none (by omega)
      rw [parseByType_of_none hnone, parseByType_of_none hnone]

/-- **The recursion equation of `parseValue`.** -/
theorem parseValue_eq (s : Bytes) (p : ℕ) :
    parseValue reserve s p = parseByType reserve (parseValue reserve) s p := by
  change parseByType reserve (parseValueFuel reserve s.length) s p = _
  by_cases hp : p < s.length
  · exact parseByType_congr parseValueFuel_lt fun q hq =>
      parseValueFuel_eq (by omega) (Nat.le_succ _)
  · have hnone : s[p]? = none := List.getElem?_eq_none (by omega)
    rw [parseByType_of_none hnone, parseByType_of_none hnone]

/-- A value moves the cursor forward, inside the buffer. -/
theorem parseValue_lt {s : Bytes} {p q : ℕ} {v : RespValue}
    (h : parseValue reserve s p = .ok (some v, q)) : p < q ∧ q ≤ s.length :=
  parseValueFuel_lt h

/-- Without a value the cursor is restored. -/
theorem parseValue_none {s : Bytes} {p q : ℕ}
    (h : parseValue reserve s p = .ok (none, q)) : q = p :=
  parseByType_none h

/-- Only the buffer from the cursor on matters. -/
theorem parseValue_shift (pre s : Bytes) (p : ℕ) :
    parseValue reserve (pre ++ s) (pre.length + p)
      = shift pre.length (parseValue reserve s p) := by
  induction hk : s.length - p using Nat.strong_induction_on generalizing p with
  | _ k ih =>
    rw [parseValue_eq, parseValue_eq s p]
    by_cases hp : p < s.length
    · exact parseByType_shift parseValue_lt fun q hq => ih _ (by omega) q rfl
    · have hnone : s[p]? = none := List.getElem?_eq_none (by omega)
      have hnone' : (pre ++ s)[pre.length + p]? = none :=
        List.getElem?_eq_none (by rw [List.length_append]; omega)
      rw [parseByType_of_none hnone, parseByType_of_none hnone']
      rfl

/-- An answer other than "no value" stays under continuation. -/
theorem parseValue_append {s : Bytes} {p : ℕ} (t : Bytes)
    (hset : Settled (parseValue reserve s p)) :
    parseValue reserve (s ++ t) p = parseValue reserve s p := by
  induction hk : s.length - p using Nat.strong_induction_on generalizing p with
  | _ k ih =>
    by_cases hp : p < s.length
    · rw [parseValue_eq s p] at hset
      rw [parseValue_eq, parseValue_eq s p]
      exact parseByType_append parseValue_lt
        (fun q hq hq' => ih _ (by omega) hq' rfl) hset
    · have hnone : s[p]? = none := List.getElem?_eq_none (by omega)
      rw [parseValue_eq, parseByType_of_none hnone] at hset
      exact absurd hset (by simp)

end ParseValue

/-! ### The command loop drains an incremental decoder -/

section Commands

variable (reserve : Reserve)

/-- One round of the command loop, on the rest of the buffer: the command at its head and the bytes
it used. -/
def frame : Incremental.Decoder UInt8 RespValue Exn := fun s =>
  match parseCommand reserve s 0 with
  | .error e => .error e
  | .ok (none, _) => .ok none
  | .ok (some value, pos) => .ok (some (value, pos))

variable {reserve}

/-- A command moves the cursor forward. -/
theorem parseCommand_lt {s : Bytes} {p q : ℕ} {v : RespValue}
    (h : parseCommand reserve s p = .ok (some v, q)) : p < q ∧ q ≤ s.length := by
  unfold parseCommand at h
  split at h
  · cases h
  · split at h
    · exact parseValue_lt h
    · exact isPlain_parseInline.lt (Except.ok.inj h)

/-- What is before the cursor does not matter. -/
theorem parseCommand_shift (pre s : Bytes) (p : ℕ) :
    parseCommand reserve (pre ++ s) (pre.length + p)
      = shift pre.length (parseCommand reserve s p) := by
  unfold parseCommand
  rw [List.getElem?_append_right (by omega), Nat.add_sub_cancel_left]
  cases s[p]? with
  | none => rfl
  | some b =>
    dsimp only
    split
    · exact parseValue_shift pre s p
    · rw [isPlain_parseInline.shift]; rfl

/-- An answer stays under continuation. -/
theorem parseCommand_append {s : Bytes} {p : ℕ} (t : Bytes)
    (hset : Settled (parseCommand reserve s p)) :
    parseCommand reserve (s ++ t) p = parseCommand reserve s p := by
  unfold parseCommand at hset ⊢
  cases hb : s[p]? with
  | none => simp [hb] at hset
  | some b =>
    -- the first byte decides between a value and an inline command
    rw [List.getElem?_append_left (List.getElem?_eq_some_iff.mp hb).1, hb]
    simp only [hb] at hset ⊢
    split
    · next h => rw [if_pos h] at hset; exact parseValue_append t hset
    · next h =>
      rw [if_neg h] at hset
      cases hv : parseInline s p with
      | mk o q =>
        cases o with
        | none => rw [hv] at hset; exact absurd hset (by simp)
        | some v => rw [isPlain_parseInline.append hv]

/-- **One round of the command loop is an incremental decoder.** -/
theorem isIncremental_frame : Incremental.IsIncremental (frame reserve) where
  item_append := by
    intro s b n h t
    unfold frame at h ⊢
    split at h
    · cases h
    · cases h
    · next v q hv =>
      cases h
      rw [parseCommand_append t (by rw [hv]; simp), hv]
  error_append := by
    intro s e h t
    unfold frame at h ⊢
    split at h
    · next e' hv =>
      cases h
      rw [parseCommand_append t (by rw [hv]; simp), hv]
    · cases h
    · cases h
  -- a command that is found takes at least one byte, and no more than there are
  pos := by
    intro s b n h
    unfold frame at h
    split at h
    · cases h
    · cases h
    · next v q hv => cases h; exact (parseCommand_lt hv).1
  le_length := by
    intro s b n h
    unfold frame at h
    split at h
    · cases h
    · cases h
    · next v q hv => cases h; exact (parseCommand_lt hv).2

/-- The loop from a cursor on drains the rest of the buffer. -/
theorem parseLoop_eq {fuel : ℕ} : ∀ {pre s : Bytes} (cmds : List RespValue), s.length ≤ fuel →
    parseLoop reserve (pre ++ s) fuel pre.length ⟨cmds, pre.length⟩ =
      (Incremental.drain (frame reserve) s).map fun x =>
        ⟨cmds ++ x.1, (pre ++ s).length - x.2.length⟩ := by
  induction fuel with
  | zero =>
    intro pre s cmds hs
    obtain rfl : s = [] := List.length_eq_zero_iff.mp (Nat.le_zero.mp hs)
    simp [parseLoop, Except.map]
  | succ fuel ih =>
    intro pre s cmds hs
    by_cases hnil : s = []
    · subst hnil
      simp [parseLoop, Except.map]
    have hpos : 0 < s.length := List.length_pos_iff.mpr hnil
    have hshift := @parseCommand_shift reserve pre s 0
    rw [Nat.add_zero] at hshift
    simp only [parseLoop, hshift, List.length_append]
    rw [if_pos (by omega)]
    cases hc : parseCommand reserve s 0 with
    | error e =>
      -- the three outcomes of one turn, in both loops
      have hf : frame reserve s = .error e := by simp only [frame, hc]
      rw [Incremental.IsIncremental.drain_of_error hnil hf]
      rfl
    | ok x =>
      obtain ⟨o, q⟩ := x
      cases o with
      | none =>
        have hf : frame reserve s = .ok none := by simp only [frame, hc]
        rw [Incremental.IsIncremental.drain_of_none hf]
        simp [Except.map]
      | some v =>
        have hf : frame reserve s = .ok (some (v, q)) := by simp only [frame, hc]
        have hq := parseCommand_lt hc
        -- the command that was found goes over to what has been read
        have hsplit : pre ++ s = (pre ++ s.take q) ++ s.drop q := by
          rw [List.append_assoc, List.take_append_drop]
        have hlen : (pre ++ s.take q).length = pre.length + q := by
          rw [List.length_append, List.length_take, Nat.min_eq_left hq.2]
        have hrec := @ih (pre ++ s.take q) (s.drop q) (cmds ++ [v])
          (by rw [List.length_drop]; omega)
        rw [hlen, ← hsplit] at hrec
        simp only [shift_ok]
        rw [hrec, isIncremental_frame.drain_of_item hf]
        cases Incremental.drain (frame reserve) (s.drop q) with
        | error e => rfl
        | ok y =>
          obtain ⟨bs, r⟩ := y
          simp [Except.map]

/-- **`parse` drains the buffer**: its commands are the items, and what it does not consume is what
the drain leaves. -/
theorem parse_eq_drain (s : Bytes) :
    parse reserve s = (Incremental.drain (frame reserve) s).map fun x =>
      ⟨x.1, s.length - x.2.length⟩ := by
  unfold parse
  simpa using @parseLoop_eq reserve s.length [] s [] le_rfl

end Commands

end RespParser
end RedisDb
