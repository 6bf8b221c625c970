import EightBit.Listing
import EightBit.Mos6502.Opcode
import EightBit.Word

/-!
Disassembly of 6502 instructions.
-/

namespace EightBit.Mos6502

/-- The operand of an instruction as an assembler writes it. `low` and `high` are the bytes behind
the opcode and `next` is the address behind the instruction. -/
def operandText (next : Nat) (low high : UInt8) : Mode → String
  | .implied => ""
  | .accumulator => "a"
  | .immediate => "#" ++ Numeral.hexByte low
  | .zeroPage => Numeral.hexByte low
  | .zeroPageX => Numeral.hexByte low ++ ",x"
  | .zeroPageY => Numeral.hexByte low ++ ",y"
  | .absolute => Numeral.hexWord (word high low)
  | .absoluteX => Numeral.hexWord (word high low) ++ ",x"
  | .absoluteY => Numeral.hexWord (word high low) ++ ",y"
  | .indirect => "(" ++ Numeral.hexWord (word high low) ++ ")"
  | .indirectX => "(" ++ Numeral.hexByte low ++ ",x)"
  | .indirectY => "(" ++ Numeral.hexByte low ++ "),y"
  | .relative => Numeral.hexWord (UInt16.ofNat next + Word.distance low)

def lister : Lister := fun code addr =>
  let opcode := code addr
  match Opcode.decode opcode with
  | none => ⟨addr, [opcode], "?" ++ Numeral.hexPair opcode, ""⟩
  | some ⟨mnemonic, mode⟩ =>
    let count := 1 + mode.operandBytes
    let bytes := (List.range' addr count).map code
    ⟨addr, bytes, mnemonic.name,
      operandText (addr + count) (bytes.getD 1 0) (bytes.getD 2 0) mode⟩

end EightBit.Mos6502
