import EightBit.Word

/-!
Eight-bit arithmetic and the condition flags it leaves.

A `FlagLayout` says where a processor family keeps each flag and which rules it follows. Every
operation takes the flags as they were and answers with a value and the flags afterwards; flags
that the family does not define for the operation stay.
-/

namespace EightBit

inductive Family where
  /-- Carry after a subtraction means that there was no borrow. -/
  | mos
  /-- Carry after a subtraction is the borrow; there are half carry and parity. -/
  | zilog
  deriving DecidableEq

/-- The masks of a family's flags, zero for a flag that it lacks. -/
structure FlagLayout where
  family : Family
  carry : UInt8
  zero : UInt8
  sign : UInt8
  overflow : UInt8
  half : UInt8
  subtract : UInt8
  parity : UInt8
  /-- Flag bits that are copied from the result. -/
  copy : UInt8

/-- A value and the flags that computing it leaves. -/
structure Outcome where
  value : UInt8
  flags : UInt8
  deriving DecidableEq

namespace FlagLayout

/-- The 6502 status register, `NV-BDIZC`. -/
def mos : FlagLayout := ⟨.mos, 0x01, 0x02, 0x80, 0x40, 0, 0, 0, 0⟩

/-- The Z80 flag register, `SZ5H3PNC`, in which parity and overflow share a bit. -/
def zilog : FlagLayout := ⟨.zilog, 0x01, 0x40, 0x80, 0x04, 0x10, 0x02, 0x04, 0x28⟩

def put (flags mask : UInt8) (on : Bool) : UInt8 :=
  if on then flags ||| mask else flags &&& ~~~mask

def carrySet (L : FlagLayout) (flags : UInt8) : Bool :=
  flags &&& L.carry != 0

def copyFrom (L : FlagLayout) (flags value : UInt8) : UInt8 :=
  (flags &&& ~~~L.copy) ||| (value &&& L.copy)

def pass (L : FlagLayout) (flags value : UInt8) : Outcome :=
  let flags := put flags L.zero (value == 0)
  let flags := put flags L.sign (value &&& 0x80 != 0)
  ⟨value, L.copyFrom flags value⟩

/-- Whether a sum of two equal signs came out with the other sign. -/
def addOverflows (a b sum : UInt8) : Bool :=
  ~~~(a ^^^ b) &&& (a ^^^ sum) &&& 0x80 != 0

/-- Whether a difference of two unlike signs came out with the sign of the second. -/
def subtractOverflows (a b difference : UInt8) : Bool :=
  (a ^^^ b) &&& (a ^^^ difference) &&& 0x80 != 0

def add (L : FlagLayout) (flags a b : UInt8) (carry : Bool) : Outcome :=
  let total := a.toNat + b.toNat + carry.toNat
  let value := UInt8.ofNat total
  let flags := put flags L.carry (256 ≤ total)
  let flags := put flags L.overflow (addOverflows a b value)
  let flags := put flags L.half (16 ≤ a.toNat % 16 + b.toNat % 16 + carry.toNat)
  let flags := put flags L.subtract false
  L.pass flags value

def sub (L : FlagLayout) (flags a b : UInt8) (borrow : Bool) : Outcome :=
  let taken := b.toNat + borrow.toNat
  let value := UInt8.ofNat (a.toNat + 512 - taken)
  let short : Bool := a.toNat < taken
  let flags := put flags L.carry (match L.family with | .mos => !short | .zilog => short)
  let flags := put flags L.overflow (subtractOverflows a b value)
  let flags := put flags L.half (a.toNat % 16 < b.toNat % 16 + borrow.toNat)
  let flags := put flags L.subtract true
  L.pass flags value

/-- The flags of comparing `a` with `b`. The 6502 leaves overflow alone, and the Z80 copies its
undocumented bits from `b`. -/
def compare (L : FlagLayout) (flags a b : UInt8) : UInt8 :=
  match L.family with
  | .mos => (L.pass (put flags L.carry (b ≤ a)) (a - b)).flags
  | .zilog => L.copyFrom (L.sub flags a b false).flags b

/-- Packed decimal sum as the NMOS 6502 forms it: zero is that of the binary sum, sign and
overflow those of the high nibble before its correction. -/
def addDecimal (L : FlagLayout) (flags a b : UInt8) (carry : Bool) : Outcome :=
  let binary := a + b + UInt8.ofNat carry.toNat
  let lo := a.toNat % 16 + b.toNat % 16 + carry.toNat
  let lo := if 9 < lo then lo + 6 else lo
  let hi := a.toNat / 16 + b.toNat / 16 + (if 15 < lo then 1 else 0)
  let flags := put flags L.zero (binary == 0)
  let flags := put flags L.sign (hi / 8 % 2 == 1)
  let flags := put flags L.overflow (addOverflows a b (UInt8.ofNat (hi % 16 * 16)))
  let hi := if 9 < hi then hi + 6 else hi
  ⟨UInt8.ofNat (hi % 16 * 16 + lo % 16), put flags L.carry (15 < hi)⟩

/-- Packed decimal difference as the NMOS 6502 forms it: all flags are those of the binary
difference. -/
def subDecimal (L : FlagLayout) (flags a b : UInt8) (borrow : Bool) : Outcome :=
  let lo : Int := (a.toNat % 16 : Nat) - (b.toNat % 16 + borrow.toNat : Nat)
  let hi : Int := (a.toNat / 16 : Nat) - (b.toNat / 16 : Nat)
  let (lo, hi) := if lo < 0 then (lo - 6, hi - 1) else (lo, hi)
  let hi := if hi < 0 then hi - 6 else hi
  ⟨UInt8.ofNat ((hi % 16).toNat * 16 + (lo % 16).toNat), (L.sub flags a b borrow).flags⟩

/-- The answer of a bitwise operation; only the Z80 touches more than zero and sign. -/
def logic (L : FlagLayout) (flags value : UInt8) (half : Bool) : Outcome :=
  match L.family with
  | .mos => L.pass flags value
  | .zilog =>
    let flags := put flags L.carry false
    let flags := put flags L.half half
    let flags := put flags L.subtract false
    let flags := put flags L.parity (Byte.evenParity value)
    L.pass flags value

def and (L : FlagLayout) (flags a b : UInt8) : Outcome := L.logic flags (a &&& b) true

def or (L : FlagLayout) (flags a b : UInt8) : Outcome := L.logic flags (a ||| b) false

def xor (L : FlagLayout) (flags a b : UInt8) : Outcome := L.logic flags (a ^^^ b) false

def shifted (L : FlagLayout) (flags value : UInt8) (out : Bool) : Outcome :=
  let flags := put flags L.carry out
  match L.family with
  | .mos => L.pass flags value
  | .zilog =>
    let flags := put flags L.half false
    let flags := put flags L.subtract false
    let flags := put flags L.parity (Byte.evenParity value)
    L.pass flags value

def shiftLeft (L : FlagLayout) (flags value : UInt8) (carry : Bool) : Outcome :=
  L.shifted flags ((value <<< 1) ||| UInt8.ofNat carry.toNat) (value &&& 0x80 != 0)

def shiftRight (L : FlagLayout) (flags value : UInt8) (carry : Bool) : Outcome :=
  L.shifted flags ((value >>> 1) ||| (UInt8.ofNat carry.toNat <<< 7)) (value &&& 0x01 != 0)

def increment (L : FlagLayout) (flags value : UInt8) : Outcome :=
  match L.family with
  | .mos => L.pass flags (value + 1)
  | .zilog =>
    let flags := put flags L.half (value &&& 0x0f == 0x0f)
    let flags := put flags L.overflow (value == 0x7f)
    let flags := put flags L.subtract false
    L.pass flags (value + 1)

def decrement (L : FlagLayout) (flags value : UInt8) : Outcome :=
  match L.family with
  | .mos => L.pass flags (value - 1)
  | .zilog =>
    let flags := put flags L.half (value &&& 0x0f == 0x00)
    let flags := put flags L.overflow (value == 0x80)
    let flags := put flags L.subtract true
    L.pass flags (value - 1)

end FlagLayout

end EightBit
