/-!
Bytes and sixteen-bit words: their halves, their bits and packed decimal.
-/

namespace EightBit

/-- The byte at every address. -/
abbrev Code := Nat → UInt8

def word (high low : UInt8) : UInt16 :=
  UInt16.ofNat (high.toNat * 256 + low.toNat)

namespace Word

def high (w : UInt16) : UInt8 := UInt8.ofNat (w.toNat / 256)

def low (w : UInt16) : UInt8 := UInt8.ofNat w.toNat

/-- A byte read as a two's complement distance and widened to a word. -/
def distance (v : UInt8) : UInt16 :=
  if v < 0x80 then v.toUInt16 else v.toUInt16 + 0xff00

end Word

namespace Byte

def evenParity (v : UInt8) : Bool :=
  let v := v ^^^ (v >>> 4)
  let v := v ^^^ (v >>> 2)
  let v := v ^^^ (v >>> 1)
  v &&& 1 == 0

/-- Packed decimal of a number, of which only the last two decimal digits are kept. -/
def toPackedDecimal (v : UInt8) : UInt8 :=
  UInt8.ofNat (v.toNat / 10 % 10 * 16 + v.toNat % 10)

def ofPackedDecimal (v : UInt8) : UInt8 :=
  UInt8.ofNat (v.toNat / 16 * 10 + v.toNat % 16)

/-- Bits `lo` to `hi` of a byte, moved down to bit zero; zero when there are none. -/
def slice (v : UInt8) (lo hi : Nat) : UInt8 :=
  let width := min 8 (hi + 1 - lo)
  UInt8.ofNat ((v.toNat >>> min 8 lo) % (1 <<< width))

def bitAt (v : UInt8) (n : Nat) : UInt8 :=
  if n < 8 then UInt8.ofNat ((v.toNat >>> n) % 2) else 0

/-- The two-bit pixel made of bit `offset` and, above it, the bit four places higher. -/
def pixel (v : UInt8) (offset : Nat) : UInt8 :=
  bitAt v (offset + 4) * 2 + bitAt v offset

end Byte

end EightBit
