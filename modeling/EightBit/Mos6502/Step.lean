import EightBit.Mos6502.Opcode
import EightBit.Mos6502.State

/-!
Execution of one 6502 instruction.
-/

namespace EightBit.Mos6502

inductive Operand where
  | nothing
  | accumulator
  | immediate (v : UInt8)
  | address (addr : UInt16)
  deriving DecidableEq

def fetch (s : Mos6502) : UInt8 × Mos6502 :=
  (s.read s.pc, { s with pc := s.pc + 1 })

def fetchWord (s : Mos6502) : UInt16 × Mos6502 :=
  let (low, s) := s.fetch
  let (high, s) := s.fetch
  (word high low, s)

/-- The word stored at a byte of page zero and the next one, which wraps around in page zero. -/
def zeroPageWord (s : Mos6502) (zp : UInt8) : UInt16 :=
  word (s.read (zp + 1).toUInt16) (s.read zp.toUInt16)

/-- The word stored at `addr`, whose high byte is taken from the same page. -/
def pageWord (s : Mos6502) (addr : UInt16) : UInt16 :=
  word (s.read (word (Word.high addr) (Word.low addr + 1))) (s.read addr)

/-- Takes the operand bytes of an instruction and finds its operand. -/
def operand (s : Mos6502) : Mode → Operand × Mos6502
  | .implied => (.nothing, s)
  | .accumulator => (.accumulator, s)
  | .immediate => let (v, s) := s.fetch; (.immediate v, s)
  | .relative => let (v, s) := s.fetch; (.immediate v, s)
  | .zeroPage => let (zp, s) := s.fetch; (.address zp.toUInt16, s)
  | .zeroPageX => let (zp, s) := s.fetch; (.address (zp + s.x).toUInt16, s)
  | .zeroPageY => let (zp, s) := s.fetch; (.address (zp + s.y).toUInt16, s)
  | .absolute => let (addr, s) := s.fetchWord; (.address addr, s)
  | .absoluteX => let (addr, s) := s.fetchWord; (.address (addr + s.x.toUInt16), s)
  | .absoluteY => let (addr, s) := s.fetchWord; (.address (addr + s.y.toUInt16), s)
  | .indirect => let (addr, s) := s.fetchWord; (.address (s.pageWord addr), s)
  | .indirectX => let (zp, s) := s.fetch; (.address (s.zeroPageWord (zp + s.x)), s)
  | .indirectY => let (zp, s) := s.fetch; (.address (s.zeroPageWord zp + s.y.toUInt16), s)

def operandValue (s : Mos6502) : Operand → UInt8
  | .nothing => 0
  | .accumulator => s.a
  | .immediate v => v
  | .address addr => s.read addr

def store (s : Mos6502) (v : UInt8) : Operand → Mos6502
  | .nothing => s
  | .immediate _ => s
  | .accumulator => { s with a := v }
  | .address addr => s.write addr v

def setA (s : Mos6502) (r : Outcome) : Mos6502 := { s with a := r.value, sr := r.flags }

def setX (s : Mos6502) (r : Outcome) : Mos6502 := { s with x := r.value, sr := r.flags }

def setY (s : Mos6502) (r : Outcome) : Mos6502 := { s with y := r.value, sr := r.flags }

def modify (s : Mos6502) (o : Operand) (f : UInt8 → UInt8 → Outcome) : Mos6502 :=
  let r := f s.sr (s.operandValue o)
  { s with sr := r.flags }.store r.value o

def branch (s : Mos6502) (taken : Bool) : Operand → Mos6502
  | .immediate v => if taken then { s with pc := s.pc + Word.distance v } else s
  | _ => s

def jump (s : Mos6502) : Operand → Mos6502
  | .address addr => { s with pc := addr }
  | _ => s

/-- Takes over a pulled status byte: the break bit stays clear and the unused bit one. -/
def pullStatus (s : Mos6502) : Mos6502 :=
  let (v, s) := s.pull
  { s with sr := (v &&& ~~~flagB) ||| flagU }

def addWithCarry (s : Mos6502) (v : UInt8) : Mos6502 :=
  if s.flag flagD then s.setA (FlagLayout.mos.addDecimal s.sr s.a v (s.flag flagC))
  else s.setA (FlagLayout.mos.add s.sr s.a v (s.flag flagC))

def subtractWithBorrow (s : Mos6502) (v : UInt8) : Mos6502 :=
  if s.flag flagD then s.setA (FlagLayout.mos.subDecimal s.sr s.a v (!s.flag flagC))
  else s.setA (FlagLayout.mos.sub s.sr s.a v (!s.flag flagC))

def compare (s : Mos6502) (register v : UInt8) : Mos6502 :=
  { s with sr := FlagLayout.mos.compare s.sr register v }

/-- Zero from the operand masked by the accumulator, the two top flags from the operand. -/
def testBits (s : Mos6502) (v : UInt8) : Mos6502 :=
  let s := s.setFlag flagZ (s.a &&& v == 0)
  let s := s.setFlag flagN (v &&& flagN != 0)
  s.setFlag flagV (v &&& flagV != 0)

/-- The software interrupt: skips a byte and pushes the status with the break bit set. -/
def softwareInterrupt (s : Mos6502) : Mos6502 :=
  let (_, s) := s.fetch
  s.enter (s.sr ||| flagB ||| flagU) irqVector

def perform (s : Mos6502) (o : Operand) : Mnemonic → Mos6502
  | .adc => s.addWithCarry (s.operandValue o)
  | .sbc => s.subtractWithBorrow (s.operandValue o)
  | .and => s.setA (FlagLayout.mos.and s.sr s.a (s.operandValue o))
  | .ora => s.setA (FlagLayout.mos.or s.sr s.a (s.operandValue o))
  | .eor => s.setA (FlagLayout.mos.xor s.sr s.a (s.operandValue o))
  | .asl => s.modify o fun sr v => FlagLayout.mos.shiftLeft sr v false
  | .lsr => s.modify o fun sr v => FlagLayout.mos.shiftRight sr v false
  | .rol => let c := s.flag flagC; s.modify o fun sr v => FlagLayout.mos.shiftLeft sr v c
  | .ror => let c := s.flag flagC; s.modify o fun sr v => FlagLayout.mos.shiftRight sr v c
  | .inc => s.modify o FlagLayout.mos.increment
  | .dec => s.modify o FlagLayout.mos.decrement
  | .inx => s.setX (FlagLayout.mos.increment s.sr s.x)
  | .iny => s.setY (FlagLayout.mos.increment s.sr s.y)
  | .dex => s.setX (FlagLayout.mos.decrement s.sr s.x)
  | .dey => s.setY (FlagLayout.mos.decrement s.sr s.y)
  | .bit => s.testBits (s.operandValue o)
  | .cmp => s.compare s.a (s.operandValue o)
  | .cpx => s.compare s.x (s.operandValue o)
  | .cpy => s.compare s.y (s.operandValue o)
  | .bcc => s.branch (!s.flag flagC) o
  | .bcs => s.branch (s.flag flagC) o
  | .bne => s.branch (!s.flag flagZ) o
  | .beq => s.branch (s.flag flagZ) o
  | .bpl => s.branch (!s.flag flagN) o
  | .bmi => s.branch (s.flag flagN) o
  | .bvc => s.branch (!s.flag flagV) o
  | .bvs => s.branch (s.flag flagV) o
  | .brk => s.softwareInterrupt
  | .rti => let (pc, s) := s.pullStatus.pullWord; { s with pc }
  | .jmp => s.jump o
  | .jsr => (s.pushWord (s.pc - 1)).jump o
  | .rts => let (pc, s) := s.pullWord; { s with pc := pc + 1 }
  | .clc => s.setFlag flagC false
  | .cld => s.setFlag flagD false
  | .cli => s.setFlag flagI false
  | .clv => s.setFlag flagV false
  | .sec => s.setFlag flagC true
  | .sed => s.setFlag flagD true
  | .sei => s.setFlag flagI true
  | .lda => s.setA (FlagLayout.mos.pass s.sr (s.operandValue o))
  | .ldx => s.setX (FlagLayout.mos.pass s.sr (s.operandValue o))
  | .ldy => s.setY (FlagLayout.mos.pass s.sr (s.operandValue o))
  | .sta => s.store s.a o
  | .stx => s.store s.x o
  | .sty => s.store s.y o
  | .tax => s.setX (FlagLayout.mos.pass s.sr s.a)
  | .tay => s.setY (FlagLayout.mos.pass s.sr s.a)
  | .txa => s.setA (FlagLayout.mos.pass s.sr s.x)
  | .tya => s.setA (FlagLayout.mos.pass s.sr s.y)
  | .tsx => s.setX (FlagLayout.mos.pass s.sr s.sp)
  | .txs => { s with sp := s.x }
  | .pha => s.push s.a
  | .php => s.push (s.sr ||| flagB ||| flagU)
  | .pla => let (v, s) := s.pull; s.setA (FlagLayout.mos.pass s.sr v)
  | .plp => s.pullStatus
  | .nop => s

/-- Executes one instruction. An undefined opcode does nothing but pass. -/
def step (s : Mos6502) : Mos6502 :=
  let (code, s) := s.fetch
  match Opcode.decode code with
  | none => s
  | some ⟨mnemonic, mode⟩ =>
    let (o, s) := s.operand mode
    s.perform o mnemonic

end EightBit.Mos6502
