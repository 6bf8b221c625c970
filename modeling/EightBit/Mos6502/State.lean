import EightBit.Flags
import EightBit.Memory
import EightBit.Register

/-!
The state of a 6502: its registers and the memory it works on.
-/

namespace EightBit

/-- A 6502 with its memory. `pc` is the address of the next instruction. -/
structure Mos6502 where
  a : UInt8
  x : UInt8
  y : UInt8
  /-- Stack pointer, an offset into page one. -/
  sp : UInt8
  /-- Status register. -/
  sr : UInt8
  pc : UInt16
  mem : Memory
  /-- The registers behind the ports of the memory. -/
  latches : Latches

namespace Mos6502

abbrev flagC : UInt8 := 0x01
abbrev flagZ : UInt8 := 0x02
abbrev flagI : UInt8 := 0x04
abbrev flagD : UInt8 := 0x08
/-- Status bit: set in the copy that a program pushes. -/
abbrev flagB : UInt8 := 0x10
/-- Status bit: unused and always one. -/
abbrev flagU : UInt8 := 0x20
abbrev flagV : UInt8 := 0x40
abbrev flagN : UInt8 := 0x80

abbrev nmiVector : Nat := 0xfffa
abbrev resetVector : Nat := 0xfffc
abbrev irqVector : Nat := 0xfffe

def powerOn (mem : Memory) (latches : Latches) : Mos6502 where
  a := 0
  x := 0
  y := 0
  sp := 0xfd
  sr := flagI ||| flagU
  pc := 0
  mem
  latches

def read (s : Mos6502) (addr : UInt16) : UInt8 := s.mem.read s.latches addr.toNat

def write (s : Mos6502) (addr : UInt16) (v : UInt8) : Mos6502 :=
  let (mem, latches) := s.mem.write s.latches addr.toNat v
  { s with mem, latches }

def flag (s : Mos6502) (mask : UInt8) : Bool := s.sr &&& mask == mask

def setFlag (s : Mos6502) (mask : UInt8) (on : Bool) : Mos6502 :=
  { s with sr := FlagLayout.put s.sr mask on }

/-- The address in page one that the stack pointer stands for. -/
def stackAddress (sp : UInt8) : UInt16 := word 1 sp

/-- Pushes a byte; the stack grows downwards and wraps around within page one. -/
def push (s : Mos6502) (v : UInt8) : Mos6502 :=
  let s := s.write (stackAddress s.sp) v
  { s with sp := s.sp - 1 }

def pushWord (s : Mos6502) (w : UInt16) : Mos6502 :=
  (s.push (Word.high w)).push (Word.low w)

def pull (s : Mos6502) : UInt8 × Mos6502 :=
  let sp := s.sp + 1
  (s.read (stackAddress sp), { s with sp })

def pullWord (s : Mos6502) : UInt16 × Mos6502 :=
  let (low, s) := s.pull
  let (high, s) := s.pull
  (word high low, s)

def vector (s : Mos6502) (addr : Nat) : UInt16 := s.mem.readWord s.latches addr

/-- Reloads stack pointer and status and starts at the address of the reset vector. -/
def reset (s : Mos6502) : Mos6502 :=
  { s with sp := 0xfd, sr := flagI ||| flagU, pc := s.vector resetVector }

/-- Pushes the return address and a status byte, disables interrupts and follows a vector. -/
def enter (s : Mos6502) (status : UInt8) (addr : Nat) : Mos6502 :=
  let s := s.pushWord s.pc
  let s := s.push status
  let s := { s with sr := s.sr ||| flagI }
  { s with pc := s.vector addr }

/-- A non-maskable interrupt, which pushes the status with the break bit clear. -/
def nmi (s : Mos6502) : Mos6502 :=
  s.enter ((s.sr &&& ~~~flagB) ||| flagU) nmiVector

/-- An interrupt request, which counts only while interrupts are enabled. -/
def irq (s : Mos6502) : Mos6502 :=
  if s.flag flagI then s else s.enter ((s.sr &&& ~~~flagB) ||| flagU) irqVector

def registers : RegisterTable Mos6502 := [
  ("pc", .u16 (·.pc) (some fun s v => { s with pc := v })),
  ("a", .u8 (·.a) (some fun s v => { s with a := v })),
  ("x", .u8 (·.x) (some fun s v => { s with x := v })),
  ("y", .u8 (·.y) (some fun s v => { s with y := v })),
  ("sp", .u8 (·.sp) (some fun s v => { s with sp := v })),
  ("sr", .u8 (·.sr) (some fun s v => { s with sr := v ||| flagU }))]

def flagEntry (name : String) (mask : UInt8) : String × Accessor Mos6502 :=
  (name, .bool (·.flag mask) (some fun s on => s.setFlag mask on))

def flags : RegisterTable Mos6502 := [
  flagEntry "n" flagN, flagEntry "v" flagV, flagEntry "b" flagB, flagEntry "d" flagD,
  flagEntry "i" flagI, flagEntry "z" flagZ, flagEntry "c" flagC]

/-- The fields of a snapshot. The program counter is stored as the address of the last byte
fetched, which is one less. -/
def fields (s : Mos6502) : List Field :=
  [.u16 (s.pc - 1), .u8 s.a, .u8 s.x, .u8 s.y, .u8 s.sp, .u8 s.sr] ++ s.mem.fields

def load (s : Mos6502) (r : Reader) : Mos6502 × Reader :=
  let (pc, r) := r.u16
  let (a, r) := r.u8
  let (x, r) := r.u8
  let (y, r) := r.u8
  let (sp, r) := r.u8
  let (sr, r) := r.u8
  let (mem, r) := s.mem.load r
  ({ s with pc := pc + 1, a, x, y, sp, sr, mem }, r)

def display (s : Mos6502) : String :=
  let marks := [flagN, flagV, flagU, flagB, flagD, flagI, flagZ, flagC].map fun mask =>
    flagMark (s.flag mask)
  let bytes := [s.sr, s.a, s.x, s.y, s.sp].map Numeral.hexPair
  " pc  sr ac xr yr sp  n v - b d i z c\n" ++
    " ".intercalate (Numeral.hexQuad s.pc :: bytes) ++ "  " ++ " ".intercalate marks

end Mos6502

end EightBit
