import RedisDb.Protocol.RespCodec

/-!
# Inline requests

A request can be a line of arguments instead of an array of bulk strings. `Writes` says which lines
write which arguments: each argument bare or in quotes of either kind, and blanks between them. The
tokenizer reads a line back as the arguments it was written from (`inlineArgs_of_writes`), so that the
line and the array are the same request to `parse`.
-/

namespace RedisDb
namespace RespParser

open RespSerializer Incremental

/-! ### Lines of arguments -/

/-- How an argument stands in a line. -/
inductive Quoting where
  | bare
  | double
  | single

namespace Quoting

/-- The quote character, if there is one. -/
def char : Quoting → Option UInt8
  | bare => none
  | double => some 34
  | single => some 39

/-- The text of an argument in a line. -/
def write (quoting : Quoting) (arg : Bytes) : Bytes :=
  match quoting.char with
  | none => arg
  | some quote => quote :: arg ++ [quote]

/-- The arguments that can stand in a line so: in quotes, those without the quote; bare, those that
are not empty, have no blank in them and do not begin with a quote. -/
def Admits (quoting : Quoting) (arg : Bytes) : Prop :=
  match quoting.char with
  | none => (∀ b ∈ arg, isBlank b = false) ∧ ∃ b t, arg = b :: t ∧ b ≠ 34 ∧ b ≠ 39
  | some quote => quote ∉ arg

end Quoting

/-- The line writes the arguments: blanks, an argument, and a line that writes the others and begins
with a blank, if there is anything left. -/
inductive Writes : List Bytes → Bytes → Prop
  | nil {blanks : Bytes} : (∀ b ∈ blanks, isBlank b = true) → Writes [] blanks
  | cons {blanks arg rest : Bytes} {args : List Bytes} (quoting : Quoting) :
      (∀ b ∈ blanks, isBlank b = true) → quoting.Admits arg →
      (∀ b ∈ rest.head?, isBlank b = true) → Writes args rest →
      Writes (arg :: args) (blanks ++ quoting.write arg ++ rest)

/-! ### Reading a line back -/

/-- A run that ends where the rest begins. -/
theorem span_append {p : UInt8 → Bool} {run rest : Bytes} (hrun : ∀ b ∈ run, p b = true)
    (hrest : ∀ b ∈ rest.head?, p b = false) :
    (run ++ rest).takeWhile p = run ∧ (run ++ rest).dropWhile p = rest := by
  rw [List.takeWhile_append_of_pos hrun, List.dropWhile_append_of_pos hrun]
  cases rest with
  | nil => exact ⟨List.append_nil run, rfl⟩
  | cons b t =>
    have hb : p b = false := hrest b rfl
    simp [hb]

/-- The first argument of a line, and what the tokenizer goes on with. -/
theorem inlineArgsFuel_cons {blanks arg rest : Bytes} {quoting : Quoting} (fuel : ℕ)
    (hblanks : ∀ b ∈ blanks, isBlank b = true) (harg : quoting.Admits arg)
    (hrest : ∀ b ∈ rest.head?, isBlank b = true) :
    inlineArgsFuel (fuel + 1) (blanks ++ quoting.write arg ++ rest) = arg :: inlineArgsFuel fuel rest := by
  have hrest' : ∀ b ∈ rest.head?, (! isBlank b) = false := fun b hb => by rw [hrest b hb]; rfl
  rw [List.append_assoc]
  cases quoting with
  | bare =>
    -- a bare word ends before the next blank
    obtain ⟨hplain, b, t, rfl, hdouble, hsingle⟩ := harg
    have hstart : ∀ b' ∈ (b :: t ++ rest).head?, isBlank b' = false := by
      rintro b' ⟨⟩
      exact hplain b List.mem_cons_self
    have hrun : ∀ b' ∈ b :: t, (! isBlank b') = true := fun b' hb' => by rw [hplain b' hb']; rfl
    have hword := span_append hrun hrest'
    simp only [inlineArgsFuel, Quoting.write, Quoting.char, (span_append hblanks hstart).2]
    rw [List.cons_append] at hword ⊢
    simp only [if_neg hdouble, if_neg hsingle, hword.1, hword.2]
  | double =>
    -- a quoted word ends at the quote that closes it, which is dropped
    have hrun : ∀ b ∈ arg, decide (b ≠ 34) = true :=
      fun b hb => by simpa using fun heq : b = 34 => harg (heq ▸ hb)
    have hclose : ∀ b ∈ (34 :: rest).head?, decide (b ≠ 34) = false := by simp
    have hquote : ∀ b ∈ (34 :: (arg ++ 34 :: rest)).head?, isBlank b = false := by rintro b ⟨⟩; rfl
    have hword := span_append hrun hclose
    have hopen := span_append hblanks hquote
    simp only [inlineArgsFuel, Quoting.write, Quoting.char, List.cons_append, List.append_assoc,
      List.nil_append, hopen.2, if_true, hword.1, hword.2, List.drop_one, List.tail_cons]
  | single =>
    have hrun : ∀ b ∈ arg, decide (b ≠ 39) = true :=
      fun b hb => by simpa using fun heq : b = 39 => harg (heq ▸ hb)
    have hclose : ∀ b ∈ (39 :: rest).head?, decide (b ≠ 39) = false := by simp
    have hquote : ∀ b ∈ (39 :: (arg ++ 39 :: rest)).head?, isBlank b = false := by rintro b ⟨⟩; rfl
    have hword := span_append hrun hclose
    have hopen := span_append hblanks hquote
    -- the single quote is tried after the double one
    have hother : (39 : UInt8) ≠ 34 := by decide
    simp only [inlineArgsFuel, Quoting.write, Quoting.char, List.cons_append, List.append_assoc,
      List.nil_append, hopen.2, if_neg hother, if_true, hword.1, hword.2, List.drop_one, List.tail_cons]

theorem inlineArgsFuel_of_writes {args : List Bytes} {line : Bytes} (h : Writes args line) :
    ∀ fuel, line.length ≤ fuel → inlineArgsFuel fuel line = args := by
  induction h with
  | @nil blanks hblanks =>
    intro fuel hfuel
    cases fuel with
    | zero => rfl
    | succ fuel =>
      have hend : blanks.dropWhile isBlank = [] := List.dropWhile_eq_nil_iff.mpr hblanks
      simp only [inlineArgsFuel, hend]
  | @cons blanks arg rest args quoting hblanks harg hrest _ ih =>
    intro fuel hfuel
    -- an argument takes a letter at least, a quote if nothing else
    have htext : 0 < (quoting.write arg).length := by
      cases quoting with
      | bare =>
        obtain ⟨-, b, t, rfl, -⟩ := harg
        exact Nat.succ_pos _
      | double => exact Nat.succ_pos _
      | single => exact Nat.succ_pos _
    rw [List.length_append, List.length_append] at hfuel
    obtain ⟨fuel, rfl⟩ : ∃ n, fuel = n + 1 := ⟨fuel - 1, by omega⟩
    rw [inlineArgsFuel_cons fuel hblanks harg hrest, ih fuel (by omega)]

/-- **The tokenizer reads a line back** as the arguments it was written from. -/
theorem inlineArgs_of_writes {args : List Bytes} {line : Bytes} (h : Writes args line) :
    inlineArgs line = args := inlineArgsFuel_of_writes h line.length le_rfl

/-! ### One request -/

section Requests

variable {reserve : Reserve}

/-- The bytes that begin a typed value. -/
def IsTypeByte (b : UInt8) : Prop := b = 42 ∨ b = 43 ∨ b = 45 ∨ b = 58 ∨ b = 36

instance (b : UInt8) : Decidable (IsTypeByte b) := by unfold IsTypeByte; infer_instance

/-- A line is the array of its arguments. -/
theorem parseInline_line {line : Bytes} (hline : ¬ CRLF <:+: line) (rest : Bytes) :
    parseInline (line ++ CRLF ++ rest) 0
      = (some (commandValue (inlineArgs line)), line.length + 2) := by
  have hread : readLine (line ++ CRLF ++ rest) 0 = some (line, line.length + 2) := by
    rw [readLine_eq, List.drop_zero, crlfOffset_line hline]
    simp
  rw [parseInline, hread]
  dsimp only
  split
  · next hempty =>
    subst hempty
    rfl
  · rfl

/-- The first byte of a line that is no typed value. -/
theorem head_line {line : Bytes} (htype : ∀ b ∈ line.head?, ¬ IsTypeByte b) (rest : Bytes) :
    ∃ b, (line ++ CRLF ++ rest)[0]? = some b ∧ ¬ IsTypeByte b := by
  cases line with
  | nil => exact ⟨CR, rfl, by decide⟩
  | cons b t => exact ⟨b, rfl, htype b rfl⟩

/-- One round of the command loop reads one line. -/
theorem frame_line {args : List Bytes} {line : Bytes} (h : Writes args line) (hline : ¬ CRLF <:+: line)
    (htype : ∀ b ∈ line.head?, ¬ IsTypeByte b) :
    frame reserve (line ++ CRLF) = .ok (some (commandValue args, (line ++ CRLF).length)) := by
  have hinline := parseInline_line hline []
  obtain ⟨b, hb, hplain⟩ := head_line htype []
  rw [List.append_nil] at hinline hb
  simp only [frame, parseCommand, hb]
  rw [if_neg (show ¬ (b = 42 ∨ b = 43 ∨ b = 45 ∨ b = 58 ∨ b = 36) from hplain), hinline,
    inlineArgs_of_writes h, List.length_append]
  rfl

/-- A buffer that is one command. -/
theorem parse_of_frame {s : Bytes} {v : RespValue} (h : frame reserve s = .ok (some (v, s.length))) :
    parse reserve s = .ok ⟨[v], s.length⟩ := by
  rw [parse_eq_drain, isIncremental_frame.drain_of_item h, List.drop_length]
  simp [Except.map]

/-- **Inline and multibulk requests agree**: a line that writes the arguments, and the array of them, are the same
command to `parse`, which uses up either. Either text is one frame, and the frame is the command: for the line this is
an induction over the arguments as they are written, with the quotes around them. -/
theorem inline_eq_multibulk {args : List Bytes} {line : Bytes} (hfits : CommandFits reserve args)
    (h : Writes args line) (hline : ¬ CRLF <:+: line) (htype : ∀ b ∈ line.head?, ¬ IsTypeByte b) :
    parse reserve (line ++ CRLF) = .ok ⟨[commandValue args], (line ++ CRLF).length⟩ ∧
    parse reserve (bulkStringArray args) = .ok ⟨[commandValue args], (bulkStringArray args).length⟩ := by
  refine ⟨parse_of_frame (frame_line h hline htype), parse_of_frame ?_⟩
  simpa using frame_entry hfits []

end Requests

/-- `SET "a b" 'c"'`, with a tab before the last argument and a carriage return at the end of it. -/
theorem inline_set :
    parse (fun _ => none) (str "SET \"a b\" \t'c\"\r'" ++ CRLF)
      = .ok ⟨[commandValue [str "SET", str "a b", str "c\"\r"]], 18⟩ := by
  have hlast : Writes [str "c\"\r"] ([32, 9] ++ Quoting.single.write (str "c\"\r") ++ []) :=
    .cons .single (List.all_eq_true.mp (by decide)) (show 39 ∉ str "c\"\r" by decide) nofun (.nil nofun)
  have hrest : Writes [str "a b", str "c\"\r"]
      ([32] ++ Quoting.double.write (str "a b") ++ ([32, 9] ++ Quoting.single.write (str "c\"\r") ++ [])) :=
    .cons .double (List.all_eq_true.mp (by decide)) (show 34 ∉ str "a b" by decide)
      (by rintro b ⟨⟩; rfl) hlast
  have h : Writes [str "SET", str "a b", str "c\"\r"] (str "SET \"a b\" \t'c\"\r'") :=
    .cons .bare (show ∀ b ∈ ([] : Bytes), isBlank b = true from nofun)
      ⟨by simp [str, isBlank], _, _, rfl, by decide, by decide⟩ (by rintro b ⟨⟩; rfl) hrest
  exact (inline_eq_multibulk ⟨by decide, by decide, rfl⟩ h (by decide) (by rintro b ⟨⟩; decide)).1

end RespParser
end RedisDb
