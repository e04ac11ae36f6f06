import RedisDb.Cpp

/-!
# The checksum of the snapshot file

CRC-64 with the reflected polynomial, from a table with one entry for each byte.
-/

namespace RedisDb

/-- The polynomial. -/
def crc64Poly : UInt64 := 0xad93d23594bc8429

/-- One bit of the loop of `init_crc64`. -/
def crc64Bit (crc : UInt64) : UInt64 :=
  if crc &&& 1 = 1 then (crc >>> 1) ^^^ crc64Poly else crc >>> 1

/-- `crc64_tab`, as `init_crc64` fills it. -/
def crc64Tab : List UInt64 := (List.range 256).map fun i => crc64Bit^[8] (UInt64.ofNat i)

/-- The loop of `crc64_update`, for one byte. -/
def crc64Byte (crc : UInt64) (b : UInt8) : UInt64 :=
  crc64Tab.getD ((crc ^^^ b.toUInt64) &&& 0xff).toNat 0 ^^^ (crc >>> 8)

/-- `crc64_update`. -/
def crc64Update (crc : UInt64) (s : Bytes) : UInt64 := s.foldl crc64Byte crc

theorem crc64Update_append (crc : UInt64) (s t : Bytes) :
    crc64Update crc (s ++ t) = crc64Update (crc64Update crc s) t := List.foldl_append

end RedisDb
