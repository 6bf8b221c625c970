/-!
Character sets: what each byte of memory stands for when it is shown as text.
-/

namespace EightBit

structure Glyph where
  char : Char
  printable : Bool
  deriving DecidableEq

abbrev CharacterSet := UInt8 → Glyph

namespace Glyph

def blank : Glyph := ⟨'\x00', false⟩

def ofOption : Option Char → Glyph
  | some c => ⟨c, true⟩
  | none => blank

/-- The character that a dump shows, a point for one that cannot be printed. -/
def shown (g : Glyph) : Char :=
  if g.printable then g.char else '.'

end Glyph

namespace CharacterSet

def ascii : CharacterSet := fun code =>
  ⟨Char.ofNat code.toNat, 0x20 ≤ code && code < 0x7f⟩

/-- The Commodore block graphics, by their code in the range `$60` to `$7f`. -/
def graphic (code : UInt8) : Option Char :=
  match code.toNat with
  | 0x60 | 0x63 => some '─'
  | 0x61 => some '♠'
  | 0x62 | 0x7d => some '│'
  | 0x71 => some '●'
  | 0x73 => some '♥'
  | 0x77 => some '○'
  | 0x78 => some '♣'
  | 0x7a => some '♦'
  | 0x7b => some '┼'
  | 0x7e => some 'π'
  | _ => none

/-- What the shifted and the unshifted Commodore sets agree on. -/
def commodoreSymbol (code : UInt8) : Option Char :=
  if 0x20 ≤ code ∧ code ≤ 0x40 then some (Char.ofNat code.toNat)
  else match code.toNat with
    | 0x5b => some '['
    | 0x5c => some '£'
    | 0x5d => some ']'
    | 0x5e => some '↑'
    | 0x5f => some '←'
    | 0xa0 => some '\u00a0'
    | _ => none

/-- Unshifted PETSCII: upper case letters and block graphics. -/
def petscii : CharacterSet := fun code =>
  Glyph.ofOption <|
    if 0x41 ≤ code ∧ code ≤ 0x5a then some (Char.ofNat code.toNat)
    else if 0x60 ≤ code ∧ code ≤ 0x7f then graphic code
    else if 0xc0 ≤ code ∧ code ≤ 0xdf then graphic (code - 0x60)
    else if code == 0xff then some 'π'
    else commodoreSymbol code

def petsciiShifted : CharacterSet := fun code =>
  Glyph.ofOption <|
    if 0x41 ≤ code ∧ code ≤ 0x5a then some (Char.ofNat (code.toNat + 0x20))
    else if 0x61 ≤ code ∧ code ≤ 0x7a then some (Char.ofNat (code.toNat - 0x20))
    else if 0xc1 ≤ code ∧ code ≤ 0xda then some (Char.ofNat (code.toNat - 0x80))
    else commodoreSymbol code

/-- The PETSCII code of the character that a video chip draws for a screen code. -/
def petsciiOfScreen (code : UInt8) : UInt8 :=
  if code == 0x5e then 0xff
  else if code ≤ 0x1f then code + 0x40
  else if 0x40 ≤ code ∧ code ≤ 0x5f then code + 0x20
  else if 0x60 ≤ code ∧ code ≤ 0x7f then code + 0x40
  else if 0x80 ≤ code ∧ code ≤ 0x9f then code - 0x80
  else if 0xc0 ≤ code ∧ code ≤ 0xdf then code - 0x40
  else code

def screen : CharacterSet := fun code => petscii (petsciiOfScreen code)

def screenShifted : CharacterSet := fun code => petsciiShifted (petsciiOfScreen code)

end CharacterSet

end EightBit
