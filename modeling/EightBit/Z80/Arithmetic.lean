import EightBit.Z80.State

/-!
Arithmetic that the Z80 has beyond the common eight-bit operations.
-/

namespace EightBit.Z80

def maskIf (on : Bool) (mask : UInt8) : UInt8 := if on then mask else 0

structure WordOutcome where
  value : UInt16
  flags : UInt8
  deriving DecidableEq

/-- Sum of two words. Sign, zero and parity stay; half carry is the one out of bit 11. -/
def addWords (flags : UInt8) (a b : UInt16) : WordOutcome :=
  let total := a.toNat + b.toNat
  let value := UInt16.ofNat total
  ⟨value,
    (flags &&& (flagS ||| flagZ ||| flagV)) |||
      maskIf (65536 ≤ total) flagC |||
      maskIf (4096 ≤ a.toNat % 4096 + b.toNat % 4096) flagH |||
      (Word.high value &&& (flag3 ||| flag5))⟩

def wordFlags (value : UInt16) (carry half overflow : Bool) : UInt8 :=
  maskIf carry flagC ||| maskIf half flagH ||| maskIf overflow flagV |||
    maskIf (value == 0) flagZ ||| (Word.high value &&& (flagS ||| flag3 ||| flag5))

def addWordsCarry (a b : UInt16) (carry : Bool) : WordOutcome :=
  let total := a.toNat + b.toNat + carry.toNat
  let value := UInt16.ofNat total
  ⟨value, wordFlags value (65536 ≤ total)
    (4096 ≤ a.toNat % 4096 + b.toNat % 4096 + carry.toNat)
    (~~~(a ^^^ b) &&& (a ^^^ value) &&& 0x8000 != 0)⟩

def subtractWordsBorrow (a b : UInt16) (borrow : Bool) : WordOutcome :=
  let taken := b.toNat + borrow.toNat
  let value := UInt16.ofNat (a.toNat + 131072 - taken)
  ⟨value, flagN ||| wordFlags value (a.toNat < taken)
    (a.toNat % 4096 < b.toNat % 4096 + borrow.toNat)
    ((a ^^^ b) &&& (a ^^^ value) &&& 0x8000 != 0)⟩

/-- Corrects an accumulator to packed decimal after the sum or difference that the flags tell. -/
def decimalAdjust (flags a : UInt8) : Outcome :=
  let half := flags &&& flagH == flagH
  let carry := flags &&& flagC == flagC
  let low := a &&& 0x0f
  let overHigh := carry || 0x99 < a
  let fix := maskIf (half || 9 < low) 0x06 ||| maskIf overHigh 0x60
  let (value, half) :=
    if flags &&& flagN == flagN then (a - fix, half && low < 6) else (a + fix, 9 < low)
  let kept := (flags &&& flagN) ||| maskIf overHigh flagC ||| maskIf half flagH |||
    maskIf (Byte.evenParity value) flagV
  FlagLayout.zilog.pass kept value

/-- The one-byte rotations of the accumulator, its complement and the two carry operations, by
number. Sign, zero and parity stay. -/
def accumulatorOutcome (y : Nat) (flags a : UInt8) : Outcome :=
  let carry := flags &&& flagC
  let (value, changed) := match y with
    | 0 => ((a <<< 1) ||| (a >>> 7), a >>> 7)
    | 1 => ((a >>> 1) ||| (a <<< 7), a &&& 0x01)
    | 2 => ((a <<< 1) ||| carry, a >>> 7)
    | 3 => ((a >>> 1) ||| (carry <<< 7), a &&& 0x01)
    | 5 => (~~~a, carry ||| flagH ||| flagN)
    | 6 => (a, flagC)
    | _ => (a, if carry == 0 then flagC else flagH)
  ⟨value, (flags &&& (flagS ||| flagZ ||| flagV)) ||| changed ||| (value &&& (flag3 ||| flag5))⟩

def rotated (y : Nat) (flags v : UInt8) : Outcome :=
  let carry := flags &&& flagC == flagC
  match y with
  | 0 => FlagLayout.zilog.shiftLeft flags v (v &&& 0x80 != 0)
  | 1 => FlagLayout.zilog.shiftRight flags v (v &&& 0x01 != 0)
  | 2 => FlagLayout.zilog.shiftLeft flags v carry
  | 3 => FlagLayout.zilog.shiftRight flags v carry
  | 4 => FlagLayout.zilog.shiftLeft flags v false
  | 5 => FlagLayout.zilog.shiftRight flags v (v &&& 0x80 != 0)
  | 6 => FlagLayout.zilog.shiftLeft flags v true
  | _ => FlagLayout.zilog.shiftRight flags v false

/-- The flags of testing bit `y` of `v`; the undocumented bits come from `copy`. -/
def testedFlags (y : Nat) (flags v copy : UInt8) : UInt8 :=
  let kept := (flags &&& flagC) ||| flagH ||| (copy &&& (flag3 ||| flag5))
  if (v.toNat >>> y) % 2 = 0 then kept ||| flagZ ||| flagV
  else if y = 7 then kept ||| flagS
  else kept

end EightBit.Z80
