/-!
The documented instruction set of the 6502: 151 opcodes, each a mnemonic with an addressing mode.
-/

namespace EightBit.Mos6502

inductive Mnemonic where
  | adc | and | asl | bcc | bcs | beq | bit | bmi | bne | bpl | brk | bvc | bvs | clc
  | cld | cli | clv | cmp | cpx | cpy | dec | dex | dey | eor | inc | inx | iny | jmp
  | jsr | lda | ldx | ldy | lsr | nop | ora | pha | php | pla | plp | rol | ror | rti
  | rts | sbc | sec | sed | sei | sta | stx | sty | tax | tay | tsx | txa | txs | tya
  deriving DecidableEq

def Mnemonic.name : Mnemonic → String
  | .adc => "adc" | .and => "and" | .asl => "asl" | .bcc => "bcc"
  | .bcs => "bcs" | .beq => "beq" | .bit => "bit" | .bmi => "bmi"
  | .bne => "bne" | .bpl => "bpl" | .brk => "brk" | .bvc => "bvc"
  | .bvs => "bvs" | .clc => "clc" | .cld => "cld" | .cli => "cli"
  | .clv => "clv" | .cmp => "cmp" | .cpx => "cpx" | .cpy => "cpy"
  | .dec => "dec" | .dex => "dex" | .dey => "dey" | .eor => "eor"
  | .inc => "inc" | .inx => "inx" | .iny => "iny" | .jmp => "jmp"
  | .jsr => "jsr" | .lda => "lda" | .ldx => "ldx" | .ldy => "ldy"
  | .lsr => "lsr" | .nop => "nop" | .ora => "ora" | .pha => "pha"
  | .php => "php" | .pla => "pla" | .plp => "plp" | .rol => "rol"
  | .ror => "ror" | .rti => "rti" | .rts => "rts" | .sbc => "sbc"
  | .sec => "sec" | .sed => "sed" | .sei => "sei" | .sta => "sta"
  | .stx => "stx" | .sty => "sty" | .tax => "tax" | .tay => "tay"
  | .tsx => "tsx" | .txa => "txa" | .txs => "txs" | .tya => "tya"

inductive Mode where
  | implied
  | accumulator
  /-- The byte behind the opcode. -/
  | immediate
  /-- A byte of page zero. -/
  | zeroPage
  /-- A byte of page zero, X past the given one. -/
  | zeroPageX
  /-- A byte of page zero, Y past the given one. -/
  | zeroPageY
  /-- A byte anywhere. -/
  | absolute
  /-- A byte X past the given one. -/
  | absoluteX
  /-- A byte Y past the given one. -/
  | absoluteY
  /-- A byte whose address is stored at the given one. -/
  | indirect
  /-- A byte whose address is stored in page zero, X past the given byte. -/
  | indirectX
  /-- A byte Y past the address that is stored in page zero. -/
  | indirectY
  /-- A branch distance. -/
  | relative
  deriving DecidableEq

def Mode.operandBytes : Mode → Nat
  | .implied | .accumulator => 0
  | .absolute | .absoluteX | .absoluteY | .indirect => 2
  | .immediate | .zeroPage | .zeroPageX | .zeroPageY | .indirectX | .indirectY | .relative => 1

structure Opcode where
  mnemonic : Mnemonic
  mode : Mode
  deriving DecidableEq

namespace Opcode

abbrev op (mnemonic : Mnemonic) (mode : Mode) : Option Opcode := some ⟨mnemonic, mode⟩

/-- The instructions by opcode, sixteen opcodes in each four lines. -/
def matrix : Array (Option Opcode) := #[
  op .brk .implied, op .ora .indirectX, none, none,
  none, op .ora .zeroPage, op .asl .zeroPage, none,
  op .php .implied, op .ora .immediate, op .asl .accumulator, none,
  none, op .ora .absolute, op .asl .absolute, none,
  op .bpl .relative, op .ora .indirectY, none, none,
  none, op .ora .zeroPageX, op .asl .zeroPageX, none,
  op .clc .implied, op .ora .absoluteY, none, none,
  none, op .ora .absoluteX, op .asl .absoluteX, none,
  op .jsr .absolute, op .and .indirectX, none, none,
  op .bit .zeroPage, op .and .zeroPage, op .rol .zeroPage, none,
  op .plp .implied, op .and .immediate, op .rol .accumulator, none,
  op .bit .absolute, op .and .absolute, op .rol .absolute, none,
  op .bmi .relative, op .and .indirectY, none, none,
  none, op .and .zeroPageX, op .rol .zeroPageX, none,
  op .sec .implied, op .and .absoluteY, none, none,
  none, op .and .absoluteX, op .rol .absoluteX, none,
  op .rti .implied, op .eor .indirectX, none, none,
  none, op .eor .zeroPage, op .lsr .zeroPage, none,
  op .pha .implied, op .eor .immediate, op .lsr .accumulator, none,
  op .jmp .absolute, op .eor .absolute, op .lsr .absolute, none,
  op .bvc .relative, op .eor .indirectY, none, none,
  none, op .eor .zeroPageX, op .lsr .zeroPageX, none,
  op .cli .implied, op .eor .absoluteY, none, none,
  none, op .eor .absoluteX, op .lsr .absoluteX, none,
  op .rts .implied, op .adc .indirectX, none, none,
  none, op .adc .zeroPage, op .ror .zeroPage, none,
  op .pla .implied, op .adc .immediate, op .ror .accumulator, none,
  op .jmp .indirect, op .adc .absolute, op .ror .absolute, none,
  op .bvs .relative, op .adc .indirectY, none, none,
  none, op .adc .zeroPageX, op .ror .zeroPageX, none,
  op .sei .implied, op .adc .absoluteY, none, none,
  none, op .adc .absoluteX, op .ror .absoluteX, none,
  none, op .sta .indirectX, none, none,
  op .sty .zeroPage, op .sta .zeroPage, op .stx .zeroPage, none,
  op .dey .implied, none, op .txa .implied, none,
  op .sty .absolute, op .sta .absolute, op .stx .absolute, none,
  op .bcc .relative, op .sta .indirectY, none, none,
  op .sty .zeroPageX, op .sta .zeroPageX, op .stx .zeroPageY, none,
  op .tya .implied, op .sta .absoluteY, op .txs .implied, none,
  none, op .sta .absoluteX, none, none,
  op .ldy .immediate, op .lda .indirectX, op .ldx .immediate, none,
  op .ldy .zeroPage, op .lda .zeroPage, op .ldx .zeroPage, none,
  op .tay .implied, op .lda .immediate, op .tax .implied, none,
  op .ldy .absolute, op .lda .absolute, op .ldx .absolute, none,
  op .bcs .relative, op .lda .indirectY, none, none,
  op .ldy .zeroPageX, op .lda .zeroPageX, op .ldx .zeroPageY, none,
  op .clv .implied, op .lda .absoluteY, op .tsx .implied, none,
  op .ldy .absoluteX, op .lda .absoluteX, op .ldx .absoluteY, none,
  op .cpy .immediate, op .cmp .indirectX, none, none,
  op .cpy .zeroPage, op .cmp .zeroPage, op .dec .zeroPage, none,
  op .iny .implied, op .cmp .immediate, op .dex .implied, none,
  op .cpy .absolute, op .cmp .absolute, op .dec .absolute, none,
  op .bne .relative, op .cmp .indirectY, none, none,
  none, op .cmp .zeroPageX, op .dec .zeroPageX, none,
  op .cld .implied, op .cmp .absoluteY, none, none,
  none, op .cmp .absoluteX, op .dec .absoluteX, none,
  op .cpx .immediate, op .sbc .indirectX, none, none,
  op .cpx .zeroPage, op .sbc .zeroPage, op .inc .zeroPage, none,
  op .inx .implied, op .sbc .immediate, op .nop .implied, none,
  op .cpx .absolute, op .sbc .absolute, op .inc .absolute, none,
  op .beq .relative, op .sbc .indirectY, none, none,
  none, op .sbc .zeroPageX, op .inc .zeroPageX, none,
  op .sed .implied, op .sbc .absoluteY, none, none,
  none, op .sbc .absoluteX, op .inc .absoluteX, none]

/-- The instruction of an opcode, if it is a documented one. -/
def decode (code : UInt8) : Option Opcode := matrix.getD code.toNat none

end Opcode

end EightBit.Mos6502
