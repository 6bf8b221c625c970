import EightBit.Flags
import EightBit.Memory
import EightBit.Register

/-!
The state of a Z80: its registers, its memory and its port space.
-/

namespace EightBit

/-- A Z80 with its memory and its port space. -/
structure Z80 where
  a : UInt8
  f : UInt8
  b : UInt8
  c : UInt8
  d : UInt8
  e : UInt8
  h : UInt8
  l : UInt8
  afAlt : UInt16
  bcAlt : UInt16
  deAlt : UInt16
  hlAlt : UInt16
  ix : UInt16
  iy : UInt16
  sp : UInt16
  /-- The address of the next instruction. -/
  pc : UInt16
  /-- Interrupt vector base. -/
  i : UInt8
  /-- Memory refresh counter. -/
  r : UInt8
  /-- Interrupts are enabled. -/
  iff1 : Bool
  /-- What `iff1` was before a non-maskable interrupt. -/
  iff2 : Bool
  im : UInt8
  /-- A halt instruction is waiting for an interrupt. -/
  halted : Bool
  mem : Memory
  ports : Memory
  /-- The registers behind the ports of both spaces. -/
  latches : Latches

namespace Z80

abbrev flagC : UInt8 := 0x01
abbrev flagN : UInt8 := 0x02
/-- Flag bit: parity or overflow. -/
abbrev flagV : UInt8 := 0x04
/-- Flag bit: copy of bit 3 of a result. -/
abbrev flag3 : UInt8 := 0x08
abbrev flagH : UInt8 := 0x10
abbrev flag5 : UInt8 := 0x20
abbrev flagZ : UInt8 := 0x40
abbrev flagS : UInt8 := 0x80

abbrev nmiAddress : UInt16 := 0x0066
abbrev mode1Address : UInt16 := 0x0038
abbrev portSpace : Nat := 0x100

def powerOn (mem ports : Memory) (latches : Latches) : Z80 where
  a := 0xff
  f := 0xff
  b := 0
  c := 0
  d := 0
  e := 0
  h := 0
  l := 0
  afAlt := 0
  bcAlt := 0
  deAlt := 0
  hlAlt := 0
  ix := 0
  iy := 0
  sp := 0xffff
  pc := 0
  i := 0
  r := 0
  iff1 := false
  iff2 := false
  im := 0
  halted := false
  mem
  ports
  latches

def af (s : Z80) : UInt16 := word s.a s.f
def bc (s : Z80) : UInt16 := word s.b s.c
def de (s : Z80) : UInt16 := word s.d s.e
def hl (s : Z80) : UInt16 := word s.h s.l

def setAF (s : Z80) (w : UInt16) : Z80 := { s with a := Word.high w, f := Word.low w }
def setBC (s : Z80) (w : UInt16) : Z80 := { s with b := Word.high w, c := Word.low w }
def setDE (s : Z80) (w : UInt16) : Z80 := { s with d := Word.high w, e := Word.low w }
def setHL (s : Z80) (w : UInt16) : Z80 := { s with h := Word.high w, l := Word.low w }

def flag (s : Z80) (mask : UInt8) : Bool := s.f &&& mask == mask

def setFlag (s : Z80) (mask : UInt8) (on : Bool) : Z80 :=
  { s with f := FlagLayout.put s.f mask on }

def read (s : Z80) (addr : UInt16) : UInt8 := s.mem.read s.latches addr.toNat

def write (s : Z80) (addr : UInt16) (v : UInt8) : Z80 :=
  let (mem, latches) := s.mem.write s.latches addr.toNat v
  { s with mem, latches }

def readWord (s : Z80) (addr : UInt16) : UInt16 := word (s.read (addr + 1)) (s.read addr)

def writeWord (s : Z80) (addr : UInt16) (w : UInt16) : Z80 :=
  (s.write addr (Word.low w)).write (addr + 1) (Word.high w)

def input (s : Z80) (port : UInt8) : UInt8 := s.ports.read s.latches port.toNat

def output (s : Z80) (port v : UInt8) : Z80 :=
  let (ports, latches) := s.ports.write s.latches port.toNat v
  { s with ports, latches }

/-- Pushes a word; the stack grows downwards. -/
def push (s : Z80) (w : UInt16) : Z80 :=
  let s := { s with sp := s.sp - 2 }
  s.writeWord s.sp w

def pop (s : Z80) : UInt16 × Z80 := (s.readWord s.sp, { s with sp := s.sp + 2 })

/-- Moves execution to an address, which ends a halt. -/
def jumpTo (s : Z80) (addr : UInt16) : Z80 := { s with pc := addr, halted := false }

/-- Leaves a halt, so that execution continues behind it. -/
def wake (s : Z80) : Z80 :=
  if s.halted then { s with halted := false, pc := s.pc + 1 } else s

/-- Control registers, accumulator, flags and stack pointer as at power-on; execution starts at
zero and the other registers stay. -/
def reset (s : Z80) : Z80 :=
  { s with
    pc := 0, i := 0, r := 0, iff1 := false, iff2 := false, im := 0, halted := false,
    sp := 0xffff, a := 0xff, f := 0xff }

/-- Where an interrupt continues. `data` is the byte that the device puts on the bus: a restart
opcode in mode 0 and the low half of a table address in mode 2. -/
def interruptTarget (s : Z80) (data : UInt8) : UInt16 :=
  match s.im with
  | 2 => s.mem.readWord s.latches (word s.i (data &&& 0xfe)).toNat
  | 1 => mode1Address
  | _ => (data &&& 0x38).toUInt16

/-- An interrupt request, which counts only while interrupts are enabled. -/
def irq (s : Z80) (data : UInt8) : Z80 :=
  if s.iff1 then
    let s := { s.wake with iff1 := false, iff2 := false }
    let s := s.push s.pc
    { s with pc := s.interruptTarget data }
  else s

/-- A non-maskable interrupt, which remembers whether interrupts were enabled. -/
def nmi (s : Z80) : Z80 :=
  let s := s.wake
  let s := { s with iff2 := s.iff1, iff1 := false }
  { s.push s.pc with pc := nmiAddress }

def registers : RegisterTable Z80 := [
  ("pc", .u16 (·.pc) (some jumpTo)),
  ("a", .u8 (·.a) (some fun s v => { s with a := v })),
  ("f", .u8 (·.f) (some fun s v => { s with f := v })),
  ("b", .u8 (·.b) (some fun s v => { s with b := v })),
  ("c", .u8 (·.c) (some fun s v => { s with c := v })),
  ("d", .u8 (·.d) (some fun s v => { s with d := v })),
  ("e", .u8 (·.e) (some fun s v => { s with e := v })),
  ("h", .u8 (·.h) (some fun s v => { s with h := v })),
  ("l", .u8 (·.l) (some fun s v => { s with l := v })),
  ("af", .u16 af (some setAF)),
  ("bc", .u16 bc (some setBC)),
  ("de", .u16 de (some setDE)),
  ("hl", .u16 hl (some setHL)),
  ("ix", .u16 (·.ix) (some fun s v => { s with ix := v })),
  ("iy", .u16 (·.iy) (some fun s v => { s with iy := v })),
  ("sp", .u16 (·.sp) (some fun s v => { s with sp := v })),
  ("i", .u8 (·.i) (some fun s v => { s with i := v })),
  ("r", .u8 (·.r) (some fun s v => { s with r := v })),
  ("af'", .u16 (·.afAlt) (some fun s v => { s with afAlt := v })),
  ("bc'", .u16 (·.bcAlt) (some fun s v => { s with bcAlt := v })),
  ("de'", .u16 (·.deAlt) (some fun s v => { s with deAlt := v })),
  ("hl'", .u16 (·.hlAlt) (some fun s v => { s with hlAlt := v })),
  ("im", .u8 (·.im) (some fun s v => { s with im := min v 2 }))]

def flagEntry (name : String) (mask : UInt8) : String × Accessor Z80 :=
  (name, .bool (·.flag mask) (some fun s on => s.setFlag mask on))

def flags : RegisterTable Z80 := [
  flagEntry "s" flagS, flagEntry "z" flagZ, flagEntry "5" flag5, flagEntry "h" flagH,
  flagEntry "3" flag3, flagEntry "v" flagV, flagEntry "n" flagN, flagEntry "c" flagC,
  ("iff1", .bool (·.iff1) (some fun s on => { s with iff1 := on })),
  ("iff2", .bool (·.iff2) (some fun s on => { s with iff2 := on }))]

def fields (s : Z80) : List Field :=
  [.u16 s.pc, .u16 s.af, .u16 s.bc, .u16 s.de, .u16 s.hl,
    .u16 s.afAlt, .u16 s.bcAlt, .u16 s.deAlt, .u16 s.hlAlt, .u16 s.ix, .u16 s.iy, .u16 s.sp,
    .u8 s.i, .u8 s.r, .bool s.iff1, .bool s.iff2, .u8 s.im, .bool s.halted] ++
    s.mem.fields ++ s.ports.fields

def load (s : Z80) (r : Reader) : Z80 × Reader :=
  let (pc, r) := r.u16
  let (af, r) := r.u16
  let (bc, r) := r.u16
  let (de, r) := r.u16
  let (hl, r) := r.u16
  let (afAlt, r) := r.u16
  let (bcAlt, r) := r.u16
  let (deAlt, r) := r.u16
  let (hlAlt, r) := r.u16
  let (ix, r) := r.u16
  let (iy, r) := r.u16
  let (sp, r) := r.u16
  let (vectorBase, r) := r.u8
  let (refresh, r) := r.u8
  let (iff1, r) := r.bool
  let (iff2, r) := r.bool
  let (im, r) := r.u8
  let (halted, r) := r.bool
  let (mem, r) := s.mem.load r
  let (ports, r) := s.ports.load r
  let s := (((s.setAF af).setBC bc).setDE de).setHL hl
  ({ s with
    pc, afAlt, bcAlt, deAlt, hlAlt, ix, iy, sp, i := vectorBase, r := refresh,
    iff1, iff2, im, halted, mem, ports }, r)

/-- The registers in four lines, the second pair for the alternates and the flags. -/
def display (s : Z80) : String :=
  let words (ws : List UInt16) := " ".intercalate (ws.map Numeral.hexQuad)
  let marks := [flagS, flagZ, flag5, flagH, flag3, flagV, flagN, flagC].map fun mask =>
    flagMark (s.flag mask)
  " pc   af   bc   de   hl   ix   iy   sp   i  r  im\n" ++
    words [s.pc, s.af, s.bc, s.de, s.hl, s.ix, s.iy, s.sp] ++ "  " ++
    Numeral.hexPair s.i ++ " " ++ Numeral.hexPair s.r ++ " " ++ toString s.im.toNat ++ "\n" ++
    "      af'  bc'  de'  hl'   s z 5 h 3 v n c  iff1 iff2\n" ++
    "     " ++ words [s.afAlt, s.bcAlt, s.deAlt, s.hlAlt] ++ "   " ++
    " ".intercalate marks ++ "   " ++ flagMark s.iff1 ++ "    " ++ flagMark s.iff2

end Z80

end EightBit
