import EightBit.Z80.Arithmetic
import EightBit.Z80.Instruction

/-!
Execution of one Z80 instruction.

An instruction is fetched whole, which moves the program counter behind it and refreshes memory,
and then performed. Repeating block operations move the program counter back onto themselves.
-/

namespace EightBit.Z80

inductive Place where
  | a
  | b
  | c
  | d
  | e
  | high (index : Index)
  | low (index : Index)
  | memory (addr : UInt16)
  deriving DecidableEq

/-- HL or the index register that stands in its place. -/
def index (s : Z80) : Index → UInt16
  | .hl => s.hl
  | .ix => s.ix
  | .iy => s.iy

def setIndex (s : Z80) (w : UInt16) : Index → Z80
  | .hl => s.setHL w
  | .ix => { s with ix := w }
  | .iy => { s with iy := w }

def operandAddress (s : Z80) (i : Instruction) : UInt16 :=
  match i.index with
  | .hl => s.hl
  | other => s.index other + Word.distance i.displacement

/-- The place that a three-bit register number names; `half` is the register whose halves stand
for H and L, and `addr` is the address of the byte operand in memory. -/
def place (n : Nat) (half : Index) (addr : UInt16) : Place :=
  match n with
  | 0 => .b
  | 1 => .c
  | 2 => .d
  | 3 => .e
  | 4 => .high half
  | 5 => .low half
  | 6 => .memory addr
  | _ => .a

def get (s : Z80) : Place → UInt8
  | .a => s.a
  | .b => s.b
  | .c => s.c
  | .d => s.d
  | .e => s.e
  | .high i => Word.high (s.index i)
  | .low i => Word.low (s.index i)
  | .memory addr => s.read addr

def set (s : Z80) (v : UInt8) : Place → Z80
  | .a => { s with a := v }
  | .b => { s with b := v }
  | .c => { s with c := v }
  | .d => { s with d := v }
  | .e => { s with e := v }
  | .high i => s.setIndex (word v (Word.low (s.index i))) i
  | .low i => s.setIndex (word (Word.high (s.index i)) v) i
  | .memory addr => s.write addr v

def pair (s : Z80) (p : Nat) (i : Index) : UInt16 :=
  match p with
  | 0 => s.bc
  | 1 => s.de
  | 2 => s.index i
  | _ => s.sp

def setPair (s : Z80) (p : Nat) (i : Index) (w : UInt16) : Z80 :=
  match p with
  | 0 => s.setBC w
  | 1 => s.setDE w
  | 2 => s.setIndex w i
  | _ => { s with sp := w }

/-- The pair that is pushed for a number, the last one being accumulator and flags. -/
def stackPair (s : Z80) (p : Nat) (i : Index) : UInt16 :=
  if p = 3 then s.af else s.pair p i

def setStackPair (s : Z80) (p : Nat) (i : Index) (w : UInt16) : Z80 :=
  if p = 3 then s.setAF w else s.setPair p i w

def holds (s : Z80) (y : Nat) : Bool :=
  match y with
  | 0 => s.f &&& flagZ == 0
  | 1 => s.f &&& flagZ != 0
  | 2 => s.f &&& flagC == 0
  | 3 => s.f &&& flagC != 0
  | 4 => s.f &&& flagV == 0
  | 5 => s.f &&& flagV != 0
  | 6 => s.f &&& flagS == 0
  | _ => s.f &&& flagS != 0

def jumpRelative (s : Z80) (taken : Bool) (distance : UInt8) : Z80 :=
  if taken then { s with pc := s.pc + Word.distance distance } else s

def call (s : Z80) (addr : UInt16) : Z80 := { s.push s.pc with pc := addr }

def ret (s : Z80) : Z80 :=
  let (pc, s) := s.pop
  { s with pc }

def exchangeAlternates (s : Z80) : Z80 :=
  let (bc, de, hl) := (s.bc, s.de, s.hl)
  let s := ((s.setBC s.bcAlt).setDE s.deAlt).setHL s.hlAlt
  { s with bcAlt := bc, deAlt := de, hlAlt := hl }

def setA (s : Z80) (o : Outcome) : Z80 := { s with a := o.value, f := o.flags }

def accumulate (s : Z80) (y : Nat) (v : UInt8) : Z80 :=
  let L := FlagLayout.zilog
  match y with
  | 0 => s.setA (L.add s.f s.a v false)
  | 1 => s.setA (L.add s.f s.a v (s.flag flagC))
  | 2 => s.setA (L.sub s.f s.a v false)
  | 3 => s.setA (L.sub s.f s.a v (s.flag flagC))
  | 4 => s.setA (L.and s.f s.a v)
  | 5 => s.setA (L.xor s.f s.a v)
  | 6 => s.setA (L.or s.f s.a v)
  | _ => { s with f := L.compare s.f s.a v }

def modify (s : Z80) (target : Place) (f : UInt8 → UInt8 → Outcome) : Z80 :=
  let o := f s.f (s.get target)
  { s with f := o.flags }.set o.value target

def performRelative (s : Z80) (i : Instruction) : Z80 :=
  match Opcode.y i.opcode with
  | 0 => s
  | 1 => { s.setAF s.afAlt with afAlt := s.af }
  | 2 =>
    let s := { s with b := s.b - 1 }
    s.jumpRelative (s.b != 0) i.byte
  | 3 => s.jumpRelative true i.byte
  | y => s.jumpRelative (s.holds (y - 4)) i.byte

/-- Base instructions of the first quarter, column two: accumulator and HL to and from memory. -/
def performIndirect (s : Z80) (i : Instruction) : Z80 :=
  match Opcode.q i.opcode, Opcode.p i.opcode with
  | 0, 0 => s.write s.bc s.a
  | 0, 1 => s.write s.de s.a
  | 0, 2 => s.writeWord i.operand (s.index i.index)
  | 0, _ => s.write i.operand s.a
  | _, 0 => { s with a := s.read s.bc }
  | _, 1 => { s with a := s.read s.de }
  | _, 2 => s.setIndex (s.readWord i.operand) i.index
  | _, _ => { s with a := s.read i.operand }

def addPair (s : Z80) (i : Instruction) : Z80 :=
  let o := addWords s.f (s.index i.index) (s.pair (Opcode.p i.opcode) i.index)
  { s with f := o.flags }.setIndex o.value i.index

/-- Base instructions of the first quarter. -/
def performMixed (s : Z80) (i : Instruction) : Z80 :=
  let op := i.opcode
  let target := place (Opcode.y op) i.index (s.operandAddress i)
  match Opcode.z op with
  | 0 => s.performRelative i
  | 1 => if Opcode.q op = 0 then s.setPair (Opcode.p op) i.index i.operand else s.addPair i
  | 2 => s.performIndirect i
  | 3 =>
    let w := s.pair (Opcode.p op) i.index
    s.setPair (Opcode.p op) i.index (if Opcode.q op = 0 then w + 1 else w - 1)
  | 4 => s.modify target FlagLayout.zilog.increment
  | 5 => s.modify target FlagLayout.zilog.decrement
  | 6 => s.set i.byte target
  | _ =>
    if Opcode.y op = 4 then s.setA (decimalAdjust s.f s.a)
    else s.setA (accumulatorOutcome (Opcode.y op) s.f s.a)

/-- Base instructions of the second quarter: byte loads and halt. Beside a byte in memory, H and L
are themselves under an index prefix too. -/
def performLoad (s : Z80) (i : Instruction) : Z80 :=
  let y := Opcode.y i.opcode
  let z := Opcode.z i.opcode
  if y = 6 ∧ z = 6 then { s with halted := true, pc := s.pc - 1 }
  else
    let half := if y = 6 ∨ z = 6 then .hl else i.index
    let addr := s.operandAddress i
    s.set (s.get (place z half addr)) (place y half addr)

/-- Base instructions of the last quarter, column three. -/
def performControl (s : Z80) (i : Instruction) : Z80 :=
  match Opcode.y i.opcode with
  | 0 => { s with pc := i.operand }
  | 2 => s.output i.byte s.a
  | 3 => { s with a := s.input i.byte }
  | 4 =>
    let w := s.readWord s.sp
    (s.writeWord s.sp (s.index i.index)).setIndex w i.index
  | 5 => (s.setDE s.hl).setHL s.de
  | 6 => { s with iff1 := false, iff2 := false }
  | 7 => { s with iff1 := true, iff2 := true }
  | _ => s

def performPop (s : Z80) (i : Instruction) : Z80 :=
  let p := Opcode.p i.opcode
  if Opcode.q i.opcode = 0 then
    let (w, s) := s.pop
    s.setStackPair p i.index w
  else match p with
    | 0 => s.ret
    | 1 => s.exchangeAlternates
    | 2 => { s with pc := s.index i.index }
    | _ => { s with sp := s.index i.index }

def performBranch (s : Z80) (i : Instruction) : Z80 :=
  let op := i.opcode
  let y := Opcode.y op
  match Opcode.z op with
  | 0 => if s.holds y then s.ret else s
  | 1 => s.performPop i
  | 2 => if s.holds y then { s with pc := i.operand } else s
  | 3 => s.performControl i
  | 4 => if s.holds y then s.call i.operand else s
  | 5 =>
    if Opcode.q op = 0 then s.push (s.stackPair (Opcode.p op) i.index) else s.call i.operand
  | 6 => s.accumulate y i.byte
  | _ => s.call (UInt16.ofNat (y * 8))

def performBase (s : Z80) (i : Instruction) : Z80 :=
  match Opcode.x i.opcode with
  | 0 => s.performMixed i
  | 1 => s.performLoad i
  | 2 =>
    s.accumulate (Opcode.y i.opcode)
      (s.get (place (Opcode.z i.opcode) i.index (s.operandAddress i)))
  | _ => s.performBranch i

/-- Performs an instruction of the bit table. Behind an index prefix the operand is always in
memory, and a result goes to the register of the opcode as well. -/
def performBits (s : Z80) (i : Instruction) : Z80 :=
  let y := Opcode.y i.opcode
  let z := Opcode.z i.opcode
  let addr := s.operandAddress i
  let source := if i.index = .hl then place z .hl addr else .memory addr
  let v := s.get source
  let bit : UInt8 := 1 <<< UInt8.ofNat y
  let finish (s : Z80) (v : UInt8) : Z80 :=
    let s := s.set v source
    if i.index = .hl ∨ z = 6 then s else s.set v (place z .hl addr)
  match Opcode.x i.opcode with
  | 0 =>
    let o := rotated y s.f v
    finish { s with f := o.flags } o.value
  | 1 =>
    let copy := match source with
      | .memory addr => Word.high addr
      | _ => v
    { s with f := testedFlags y s.f v copy }
  | 2 => finish s (v &&& ~~~bit)
  | _ => finish s (v ||| bit)

def performInput (s : Z80) (y : Nat) : Z80 :=
  let v := s.input s.c
  let kept := (s.f &&& flagC) ||| maskIf (Byte.evenParity v) flagV
  let s := { s with f := (FlagLayout.zilog.pass kept v).flags }
  if y = 6 then s else s.set v (place y .hl s.hl)

/-- Loads the accumulator from a special register; parity tells whether interrupts are enabled. -/
def loadSpecial (s : Z80) (v : UInt8) : Z80 :=
  s.setA (FlagLayout.zilog.pass ((s.f &&& flagC) ||| maskIf s.iff2 flagV) v)

def rotateDigit (s : Z80) (left : Bool) : Z80 :=
  let m := s.read s.hl
  let a := s.a
  let stored := if left then (m <<< 4) ||| (a &&& 0x0f) else (a <<< 4) ||| (m >>> 4)
  let digit := if left then m >>> 4 else m &&& 0x0f
  let a := (a &&& 0xf0) ||| digit
  let s := s.write s.hl stored
  s.setA (FlagLayout.zilog.pass ((s.f &&& flagC) ||| maskIf (Byte.evenParity a) flagV) a)

/-- The word one further in the direction of a block operation. -/
def advance (y : Nat) (w : UInt16) : UInt16 := if y % 2 = 1 then w - 1 else w + 1

/-- The undocumented bits of a block operation: bit 3 of `n`, and its bit 1 for flag 5. -/
def blockBits (n : UInt8) : UInt8 := (n &&& flag3) ||| maskIf (n &&& 0x02 != 0) flag5

/-- Block transfer of one byte, and whether a repeating form goes on. -/
def blockTransfer (s : Z80) (y : Nat) : Bool × Z80 :=
  let v := s.read s.hl
  let s := s.write s.de v
  let s := s.setHL (advance y s.hl)
  let s := s.setDE (advance y s.de)
  let bc := s.bc - 1
  let s := s.setBC bc
  let f := (s.f &&& (flagS ||| flagZ ||| flagC)) ||| maskIf (bc != 0) flagV |||
    blockBits (v + s.a)
  (bc != 0, { s with f })

def blockCompare (s : Z80) (y : Nat) : Bool × Z80 :=
  let o := FlagLayout.zilog.sub s.f s.a (s.read s.hl) false
  let carry := s.f &&& flagC
  let s := s.setHL (advance y s.hl)
  let bc := s.bc - 1
  let s := s.setBC bc
  let n := o.value - maskIf (o.flags &&& flagH != 0) 1
  let f := (o.flags &&& (flagS ||| flagZ ||| flagH)) ||| flagN ||| carry |||
    maskIf (bc != 0) flagV ||| blockBits n
  (bc != 0 && o.flags &&& flagZ == 0, { s with f })

def blockPortFlags (s : Z80) : Z80 :=
  { s with f := (FlagLayout.zilog.pass ((s.f &&& flagC) ||| flagN) s.b).flags }

def blockInput (s : Z80) (y : Nat) : Bool × Z80 :=
  let s := s.write s.hl (s.input s.c)
  let s := s.setHL (advance y s.hl)
  let s := { s with b := s.b - 1 }
  (s.b != 0, s.blockPortFlags)

def blockOutput (s : Z80) (y : Nat) : Bool × Z80 :=
  let v := s.read s.hl
  let s := { s with b := s.b - 1 }
  let s := s.output s.c v
  let s := s.setHL (advance y s.hl)
  (s.b != 0, s.blockPortFlags)

/-- Performs a block operation; a repeating form stays where it is until it is done. -/
def performBlock (s : Z80) (y z : Nat) : Z80 :=
  let (again, s) := match z with
    | 0 => s.blockTransfer y
    | 1 => s.blockCompare y
    | 2 => s.blockInput y
    | _ => s.blockOutput y
  if 6 ≤ y && again then { s with pc := s.pc - 2 } else s

def interruptMode (y : Nat) : UInt8 :=
  match y % 4 with
  | 2 => 1
  | 3 => 2
  | _ => 0

def performSpecial (s : Z80) (y : Nat) : Z80 :=
  match y with
  | 0 => { s with i := s.a }
  | 1 => { s with r := s.a }
  | 2 => s.loadSpecial s.i
  | 3 => s.loadSpecial s.r
  | 4 => s.rotateDigit false
  | 5 => s.rotateDigit true
  | _ => s

def addPairCarry (s : Z80) (p q : Nat) : Z80 :=
  let o :=
    if q = 0 then subtractWordsBorrow s.hl (s.pair p .hl) (s.flag flagC)
    else addWordsCarry s.hl (s.pair p .hl) (s.flag flagC)
  { s with f := o.flags }.setHL o.value

/-- Performs an extended instruction; undefined ones do nothing. -/
def performExtended (s : Z80) (i : Instruction) : Z80 :=
  let op := i.opcode
  let y := Opcode.y op
  match Opcode.x op, Opcode.z op with
  | 1, 0 => s.performInput y
  | 1, 1 => s.output s.c (if y = 6 then 0 else s.get (place y .hl s.hl))
  | 1, 2 => s.addPairCarry (Opcode.p op) (Opcode.q op)
  | 1, 3 =>
    if Opcode.q op = 0 then s.writeWord i.operand (s.pair (Opcode.p op) .hl)
    else s.setPair (Opcode.p op) .hl (s.readWord i.operand)
  | 1, 4 => s.setA (FlagLayout.zilog.sub s.f 0 s.a false)
  | 1, 5 =>
    let s := s.ret
    { s with iff1 := s.iff2 }
  | 1, 6 => { s with im := interruptMode y }
  | 1, _ => s.performSpecial y
  | 2, z => if 4 ≤ y && z ≤ 3 then s.performBlock y z else s
  | _, _ => s

def perform (s : Z80) (i : Instruction) : Z80 :=
  match i.page with
  | .base => s.performBase i
  | .bits => s.performBits i
  | .extended => s.performExtended i
  | .lone => s

/-- The refresh counter some opcode fetches later; its top bit stays. -/
def refreshed (r : UInt8) (count : Nat) : UInt8 :=
  (r &&& 0x80) ||| ((r + UInt8.ofNat count) &&& 0x7f)

/-- Moves behind a fetched instruction. -/
def pass (s : Z80) (i : Instruction) : Z80 :=
  { s with pc := s.pc + UInt16.ofNat i.length, r := refreshed s.r i.refreshes }

def step (s : Z80) : Z80 :=
  let i := Instruction.fetch s.read s.pc
  (s.pass i).perform i

end EightBit.Z80
