/-! Checksums of texts: CRC-32C, the cyclic redundancy check with the Castagnoli polynomial.

    A register of 32 bits starts with all bits set, takes in one byte after the other, lowest bit
    first, and is inverted at the end. -/

namespace Statechart.Checksum

/-- The reflected Castagnoli polynomial. -/
def polynomial : UInt32 := 0x82F63B78

/-- Shifts one bit out of the register. -/
def shiftBit (r : UInt32) : UInt32 :=
  if r &&& 1 = 1 then (r >>> 1) ^^^ polynomial else r >>> 1

/-- Takes one byte in. -/
def takeByte (r : UInt32) (b : UInt8) : UInt32 :=
  shiftBit (shiftBit (shiftBit (shiftBit (shiftBit (shiftBit (shiftBit (shiftBit
    (r ^^^ b.toUInt32))))))))

/-- The check value of a sequence of bytes. -/
def ofBytes (bytes : List UInt8) : UInt32 :=
  bytes.foldl takeByte 0xFFFFFFFF ^^^ 0xFFFFFFFF

/-- Eight hexadecimal digits, lower case. -/
def hex8 (n : UInt32) : String :=
  let ds := Nat.toDigits 16 n.toNat
  String.ofList (List.replicate (8 - ds.length) '0' ++ ds)

/-- The checksum of a text, in hexadecimal. -/
def ofText (s : String) : String := hex8 (ofBytes s.toUTF8.toList)

end Statechart.Checksum
