import RedisDb.Protocol.RespTypes

/-!
# The RESP serializer

`RespSerializer`: the wire text of a value, and the reply texts the commands build from literals.
-/

namespace RedisDb
namespace RespSerializer

/-- `"$<size>\r\n<bytes>\r\n"`. -/
def bulkString (s : Bytes) : Bytes := 36 :: toText s.length ++ CRLF ++ s ++ CRLF

/-- `"*<size>\r\n"`. -/
def arrayHeader (size : ℕ) : Bytes := 42 :: toText size ++ CRLF

mutual

/-- `serialize`. -/
def serialize : RespValue → Bytes
  | .simpleString s => 43 :: s ++ CRLF
  | .error msg => 45 :: msg ++ CRLF
  | .integer n => 58 :: toText n.toInt ++ CRLF
  | .bulkString s => bulkString s
  | .array elements => arrayHeader elements.length ++ serializeAll elements
  | .null => str "$-1\r\n"

/-- The element loop of `serialize`. -/
def serializeAll : List RespValue → Bytes
  | [] => []
  | element :: elements => serialize element ++ serializeAll elements

end

def ok : Bytes := str "+OK\r\n"

def pong : Bytes := str "+PONG\r\n"

def simpleString (s : Bytes) : Bytes := 43 :: s ++ CRLF

def error (msg : Bytes) : Bytes := str "-ERR " ++ msg ++ CRLF

def wrongType : Bytes :=
  str "-WRONGTYPE Operation against a key holding the wrong kind of value\r\n"

def integer (n : ℤ) : Bytes := 58 :: toText n ++ CRLF

/-- A reply shows one number only. -/
theorem integer_injective : Function.Injective integer := fun i j h => by
  have htext : toText i ++ CRLF = toText j ++ CRLF := (List.cons.inj h).2
  exact Decimal.intText_injective (List.append_cancel_right htext)

def nullBulkString : Bytes := str "$-1\r\n"

def nullArray : Bytes := str "*-1\r\n"

def emptyArray : Bytes := str "*0\r\n"

/-- `bulkStringArray`. -/
def bulkStringArray (strings : List Bytes) : Bytes :=
  arrayHeader strings.length ++ strings.flatMap bulkString

/-! ### What is sent determines the strings -/

/-- A size in a header can be read off. -/
theorem size_inj {m n : ℕ} {x y : Bytes} (h : toText m ++ CRLF ++ x = toText n ++ CRLF ++ y) : m = n ∧ x = y := by
  have hcrlf (z : Bytes) (b : UInt8) (hb : (CRLF ++ z).head? = some b) : Decimal.isDigit b = false := by
    obtain rfl : (13 : UInt8) = b := Option.some.inj hb
    rfl
  rw [toText, toText, Decimal.intText_natCast, Decimal.intText_natCast, List.append_assoc, List.append_assoc] at h
  obtain ⟨hsize, hrest⟩ := Decimal.natText_append_inj (hcrlf x) (hcrlf y) h
  exact ⟨hsize, List.append_cancel_left hrest⟩

theorem bulkString_append_inj {s t x y : Bytes} (h : bulkString s ++ x = bulkString t ++ y) : s = t ∧ x = y := by
  simp only [bulkString, List.cons_append, List.append_assoc] at h
  obtain ⟨hlength, hrest⟩ := size_inj (by simpa only [List.append_assoc] using List.tail_eq_of_cons_eq h)
  obtain ⟨hs, hx⟩ := List.append_inj hrest hlength
  exact ⟨hs, List.append_cancel_left hx⟩

/-- By induction on the strings. -/
theorem flatMap_bulkString_inj {ss : List Bytes} : ∀ {ts : List Bytes}, ss.length = ts.length →
    ss.flatMap bulkString = ts.flatMap bulkString → ss = ts := by
  induction ss with
  | nil => exact fun hlength _ => (List.eq_nil_of_length_eq_zero hlength.symm).symm
  | cons s ss ih =>
    intro ts hlength h
    cases ts with
    | nil => cases hlength
    | cons t ts =>
      rw [List.flatMap_cons, List.flatMap_cons] at h
      obtain ⟨rfl, hrest⟩ := bulkString_append_inj h
      rw [ih (Nat.succ.inj hlength) hrest]

/-- **An array reply determines its elements.** -/
theorem bulkStringArray_injective : Function.Injective bulkStringArray := by
  intro ss ts h
  simp only [bulkStringArray, arrayHeader, List.cons_append] at h
  obtain ⟨hlength, hrest⟩ := size_inj (List.tail_eq_of_cons_eq h)
  exact flatMap_bulkString_inj hlength hrest

/-! ### The literals are serialized values -/

theorem serializeAll_eq (elements : List RespValue) :
    serializeAll elements = elements.flatMap serialize := by
  induction elements with
  | nil => rfl
  | cons element elements ih => rw [serializeAll, List.flatMap_cons, ih]

/-- A command log entry is a serialized array of bulk strings. -/
theorem serialize_array_bulkString (strings : List Bytes) :
    serialize (.array (strings.map .bulkString)) = bulkStringArray strings := by
  rw [serialize, bulkStringArray, serializeAll_eq, List.length_map, List.flatMap_map]
  rfl

end RespSerializer
end RedisDb
