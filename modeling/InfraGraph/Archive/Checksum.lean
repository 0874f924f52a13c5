/-!
# Cyclic checksums

The checksum that zip files hold for the contents of each file: the remainder of the contents, read
as a polynomial over two elements with the lowest bit of each byte first.
-/

namespace InfraGraph.Archive.Checksum

/-- The divisor, with the lowest bit first and its highest term left out. -/
def divisor : UInt32 := 0xEDB88320

/-- Takes one bit into the remainder. -/
def shiftBit (remainder : UInt32) : UInt32 :=
  if remainder &&& 1 = 1 then (remainder >>> 1) ^^^ divisor else remainder >>> 1

/-- Takes one byte into the remainder. -/
def addByte (remainder : UInt32) (byte : UInt8) : UInt32 :=
  (List.range 8).foldl (fun r _ => shiftBit r) (remainder ^^^ byte.toUInt32)

/-- The checksum of some bytes. -/
def ofBytes (bytes : List UInt8) : UInt32 :=
  bytes.foldl addByte 0xFFFFFFFF ^^^ 0xFFFFFFFF

theorem ofBytes_nil : ofBytes [] = 0 := by decide

end InfraGraph.Archive.Checksum
