import RedisDb.Lib.Crc
import RedisDb.Storage.Crc64

/-!
# What the checksum of the snapshot file detects

`crc64_update` reads a byte at a time with a table. `crc64Update_eq_bits` says that it shifts the bits of
the bytes into the register one by one, the lowest bit of each byte first. The register has as many bits
as eight bytes, so no two different messages within eight bytes leave the same checksum, and what follows
keeps checksums apart (`crc64_bursts`).
-/

namespace RedisDb

/-- The bits of a text, the lowest bit of each byte first. -/
def bits (s : Bytes) : List Bool := s.flatMap fun b => (List.range 8).map b.toNat.testBit

/-- The checksum bit by bit: each bit is added to the lowest one of the register, which is then shifted to
the right, and the polynomial is added if a one comes out. -/
def crc64Bits (crc : UInt64) (bits : List Bool) : UInt64 :=
  bits.foldl (fun crc b => crc64Bit (crc ^^^ if b then 1 else 0)) crc

theorem bits_append (s t : Bytes) : bits (s ++ t) = bits s ++ bits t := List.flatMap_append

@[simp] theorem length_bits (s : Bytes) : (bits s).length = 8 * s.length := by
  induction s with
  | nil => rfl
  | cons b s ih =>
    rw [bits, List.flatMap_cons, List.length_append, ← bits, ih, List.length_map, List.length_range, List.length_cons]
    omega

/-! ### The register as a bit vector -/

theorem toBitVec_crc64Bit (crc : UInt64) : (crc64Bit crc).toBitVec = Crc.shift crc64Poly.toBitVec crc.toBitVec := by
  have hlow : crc &&& 1 = 1 ↔ crc.toBitVec.getLsbD 0 = true := by
    rw [← UInt64.toBitVec_inj, UInt64.toBitVec_and]
    show crc.toBitVec &&& 1#64 = 1#64 ↔ _
    rw [BitVec.and_one_eq_setWidth_ofBool_getLsbD]
    cases crc.toBitVec.getLsbD 0 <;> decide
  unfold crc64Bit Crc.shift
  by_cases h : crc &&& 1 = 1
  · rw [if_pos h, if_pos (hlow.mp h), UInt64.toBitVec_xor, UInt64.toBitVec_shiftRight]
    rfl
  · rw [if_neg h, if_neg (mt hlow.mpr h), UInt64.toBitVec_shiftRight]
    rfl

theorem toBitVec_iterate_crc64Bit (n : ℕ) (crc : UInt64) :
    (crc64Bit^[n] crc).toBitVec = (Crc.shift crc64Poly.toBitVec)^[n] crc.toBitVec :=
  (Function.Semiconj.iterate_right (f := UInt64.toBitVec) (fun x => toBitVec_crc64Bit x) n) crc

theorem toBitVec_crc64Bits (crc : UInt64) (bits : List Bool) :
    (crc64Bits crc bits).toBitVec = Crc.feed crc64Poly.toBitVec crc.toBitVec bits := by
  induction bits generalizing crc with
  | nil => rfl
  | cons b bits ih =>
    show (crc64Bits (crc64Bit (crc ^^^ if b then 1 else 0)) bits).toBitVec = Crc.feed _ (Crc.shift _ _) bits
    rw [ih, toBitVec_crc64Bit, UInt64.toBitVec_xor]
    cases b <;> rfl

/-! ### The table -/

theorem toNat_setWidth_byte (b : UInt8) : (b.toBitVec.setWidth 64).toNat = b.toNat := by
  rw [BitVec.toNat_setWidth, UInt8.toNat_toBitVec, Nat.mod_eq_of_lt (b.toNat_lt.trans (by decide))]

/-- A byte as a word. -/
theorem word_bits (b : UInt8) : Crc.word 64 (bits [b]) = b.toBitVec.setWidth 64 := by
  refine BitVec.eq_of_getLsbD_eq fun i hi => ?_
  rw [Crc.getLsbD_word _ hi, BitVec.getLsbD_setWidth, decide_eq_true hi, Bool.true_and]
  show (bits [b]).getD i false = b.toNat.testBit i
  by_cases hlow : i < 8
  · simp [bits, hlow]
  · have hout : b.toNat.testBit i = false := by
      refine Nat.testBit_lt_two_pow (b.toNat_lt.trans_le ?_)
      exact Nat.pow_le_pow_right (by decide) (by omega)
    rw [hout]
    simp [bits, hlow]

theorem getD_crc64Tab {i : ℕ} (hi : i < 256) : crc64Tab.getD i 0 = crc64Bit^[8] (UInt64.ofNat i) := by
  rw [crc64Tab, List.getD_eq_getElem?_getD, List.getElem?_map, List.getElem?_range hi]
  rfl

/-- **One byte**: the entry of the table is what eight shifts leave of the lowest byte of the register. -/
theorem crc64Byte_eq_bits (crc : UInt64) (b : UInt8) : crc64Byte crc b = crc64Bits crc (bits [b]) := by
  obtain ⟨x, hx⟩ : ∃ x, x = crc ^^^ b.toUInt64 := ⟨_, rfl⟩
  have hxb : x.toBitVec = crc.toBitVec ^^^ b.toBitVec.setWidth 64 := by rw [hx, UInt64.toBitVec_xor]; rfl
  have hindex : (x &&& 0xff).toNat < 256 := by
    rw [UInt64.toNat_and]
    exact Nat.lt_succ_of_le Nat.and_le_right
  -- the index of the table is the low byte, and the rest is shifted out of the way
  have hlow : ∀ i, (x &&& 0xff).toBitVec.getLsbD i = (x.toBitVec.getLsbD i && decide (i < 8)) := fun i => by
    rw [UInt64.toBitVec_and, BitVec.getLsbD_and]
    congr 1
    show (255 : ℕ).testBit i = _
    rw [show (255 : ℕ) = 2 ^ 8 - 1 from rfl, Nat.testBit_two_pow_sub_one]
  -- shifting is linear, so the low byte and the rest can be shifted apart
  have hsplit : (Crc.shift crc64Poly.toBitVec)^[8] x.toBitVec
      = (Crc.shift crc64Poly.toBitVec)^[8] (x &&& 0xff).toBitVec ^^^ (x.toBitVec >>> 8) :=
    Crc.iterate_shift_split _ (fun i hi => by rw [hlow, decide_eq_true hi, Bool.and_true])
      fun i hi => by rw [hlow, decide_eq_false (by omega), Bool.and_false]
  -- the byte that is added to the register is gone after eight shifts
  have hrest : x.toBitVec >>> 8 = crc.toBitVec >>> 8 := by
    have hzero : b.toBitVec.setWidth 64 >>> 8 = 0 := by
      refine BitVec.eq_of_toNat_eq ?_
      rw [BitVec.toNat_ushiftRight, toNat_setWidth_byte, Nat.shiftRight_eq_div_pow, Nat.div_eq_of_lt b.toNat_lt]
      rfl
    rw [hxb, BitVec.ushiftRight_xor_distrib, hzero]
    exact BitVec.xor_zero
  refine UInt64.toBitVec_inj.mp ?_
  calc (crc64Byte crc b).toBitVec
      = (crc64Bit^[8] (UInt64.ofNat (x &&& 0xff).toNat)).toBitVec ^^^ (crc >>> 8).toBitVec := by
        rw [crc64Byte, ← hx, getD_crc64Tab hindex, UInt64.toBitVec_xor]
    _ = (Crc.shift crc64Poly.toBitVec)^[8] x.toBitVec := by
        rw [UInt64.ofNat_toNat, toBitVec_iterate_crc64Bit, hsplit, hrest]
        rfl
    _ = (crc64Bits crc (bits [b])).toBitVec := by
        rw [toBitVec_crc64Bits, Crc.feed_eq _ _ _ (by simp), word_bits, ← hxb, length_bits]
        rfl

/-- **The checksum bit by bit.** By induction on the bytes. -/
theorem crc64Update_eq_bits (crc : UInt64) (s : Bytes) : crc64Update crc s = crc64Bits crc (bits s) := by
  induction s generalizing crc with
  | nil => rfl
  | cons b s ih =>
    show crc64Update (crc64Byte crc b) s = crc64Bits crc (bits ([b] ++ s))
    rw [ih, crc64Byte_eq_bits, bits_append, crc64Bits, crc64Bits, crc64Bits, List.foldl_append]

/-! ### Bursts -/

theorem bits_injective : ∀ {s t : Bytes}, bits s = bits t → s = t
  | [], [], _ => rfl
  | [], _ :: _, h => by simpa using congrArg List.length h
  | _ :: _, [], h => by simpa using congrArg List.length h
  | b :: s, c :: t, h => by
    have hboth : bits [b] ++ bits s = bits [c] ++ bits t := h
    obtain ⟨hb, hs⟩ := List.append_inj hboth (by rw [length_bits, length_bits]; rfl)
    have hword : b.toBitVec.setWidth 64 = c.toBitVec.setWidth 64 := by rw [← word_bits, ← word_bits, hb]
    have hnat := congrArg BitVec.toNat hword
    rw [toNat_setWidth_byte, toNat_setWidth_byte] at hnat
    rw [UInt8.toNat_inj.mp hnat, bits_injective hs]

theorem msb_crc64Poly : crc64Poly.toBitVec.msb = true := by decide

/-- What follows keeps checksums apart. -/
theorem crc64Update_injective (s : Bytes) : Function.Injective (crc64Update · s) := by
  intro crc crc' h
  have hfeed := congrArg UInt64.toBitVec h
  simp only [crc64Update_eq_bits, toBitVec_crc64Bits] at hfeed
  exact UInt64.toBitVec_inj.mp (Crc.feed_injective msb_crc64Poly (bits s) hfeed)

/-- No two texts of up to eight bytes leave the same checksum. -/
theorem crc64Update_window {crc : UInt64} {s t : Bytes} (hlength : s.length = t.length) (hshort : s.length ≤ 8)
    (h : crc64Update crc s = crc64Update crc t) : s = t := by
  have hfeed := congrArg UInt64.toBitVec h
  simp only [crc64Update_eq_bits, toBitVec_crc64Bits] at hfeed
  exact bits_injective (Crc.feed_bits_injective msb_crc64Poly (by simp [hlength]) (by simp; omega) hfeed)

/-- **CRC-64 is computed correctly and detects bursts**: `crc64_update` shifts the bits of the text in one by one, and
the checksums of two texts of one length that differ only within eight consecutive bytes differ. Shifting a byte in is
linear, and eight bytes shifted into a register of eight bytes can be told from it; what comes before them and behind
them is shifted in alike, and that is injective. -/
theorem crc64_bursts :
    (∀ (crc : UInt64) (s : Bytes), crc64Update crc s = crc64Bits crc (bits s)) ∧
    ∀ (crc : UInt64) (s t : Bytes) (i : ℕ), s.length = t.length → s ≠ t →
      (∀ j, j < i ∨ i + 8 ≤ j → s[j]? = t[j]?) → crc64Update crc s ≠ crc64Update crc t := by
  refine ⟨crc64Update_eq_bits, fun crc s t i hlength hne hsame heq => hne ?_⟩
  -- before the window and behind it the texts are the same
  have hbefore : s.take i = t.take i := List.ext_getElem? fun j => by
    rw [List.getElem?_take, List.getElem?_take]
    split
    · next hj => exact hsame j (.inl hj)
    · rfl
  have hbehind : (s.drop i).drop 8 = (t.drop i).drop 8 := List.ext_getElem? fun j => by
    rw [List.getElem?_drop, List.getElem?_drop, List.getElem?_drop, List.getElem?_drop]
    exact hsame _ (.inr (by omega))
  have hparts (u : Bytes) : u = u.take i ++ ((u.drop i).take 8 ++ (u.drop i).drop 8) := by
    rw [List.take_append_drop, List.take_append_drop]
  rw [hparts s, hparts t, hbefore, hbehind, crc64Update_append, crc64Update_append, crc64Update_append,
    crc64Update_append] at heq
  -- what is behind the window is shifted into different registers by the same, which keeps them different
  have hwindow := crc64Update_window (by rw [List.length_take, List.length_take, List.length_drop, List.length_drop,
    hlength]) (List.length_take_le _ _) (crc64Update_injective _ heq)
  rw [hparts s, hparts t, hbefore, hwindow, hbehind]

theorem crc64_bursts_sample : crc64Update 0 [1, 2, 3] ≠ crc64Update 0 [1, 7, 3] := by
  refine crc64_bursts.2 0 [1, 2, 3] [1, 7, 3] 1 rfl (by decide) fun j hj => ?_
  rcases j with _ | _ | j
  · rfl
  · omega
  · rfl

end RedisDb
